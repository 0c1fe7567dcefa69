import Telex.Ptwist.Pointmul

/-! Tags of `tag/tag.c`

    A tag is the abscissa of a multiple of a generator followed by the first bytes of the hash of a
    shared secret: a Diffie-Hellman exchange in which the station's half is the public key that
    `genkeys` wrote. Each of the four multiplications leaves its result unwritten when the multiple
    is at infinity, so each has its own unspecified memory. The hash is a parameter. -/

namespace Telex.Tag
open Ptwist WeierstrassCurve

/-- `MAX_CONTEXT_LEN` -/
def maxContextLen : ℕ := 9

/-- `maingen` after `tag_init`, also in `genkeys`. -/
def maingen : Fin 21 → Byte := fun i => if i = 0 then 2 else 0

/-- `twistgen` after `tag_init`, also in `genkeys`. -/
def twistgen : Fin 21 → Byte := fun _ => 0

/-- `mainpub` and `twistpub`. -/
structure Pubkey where
  mainpub : Fin 21 → Byte
  twistpub : Fin 21 → Byte

/-- The public keys `genkeys` computes from the private key. -/
def genkeys (jmain jtwist : Junk) (privkey : Fin 21 → Byte) : Pubkey :=
  ⟨ptwistPointmul jmain maingen privkey, ptwistPointmul jtwist twistgen privkey⟩

/-- `SHA256`, on byte strings. -/
abbrev Sha := List Byte → Fin 32 → Byte

/-- `gen_tag` with the random bytes it drew: the tag and the key, or nothing if the assertion on the
    context fails. All 28 bytes of the tag are overwritten, so its initial fill is not modelled. -/
def genTag (sha : Sha) (jtag jsec : Junk) (pub : Pubkey) (usetwist : Byte)
    (seckey : Fin 21 → Byte) (context : List Byte) : Option ((Fin 28 → Byte) × (Fin 16 → Byte)) :=
  if context.length ≤ maxContextLen then
    let usetwist := usetwist &&& 1#8
    let tag := ptwistPointmul jtag (if usetwist ≠ 0 then twistgen else maingen) seckey
    let sharedsec := ptwistPointmul jsec (if usetwist ≠ 0 then pub.twistpub else pub.mainpub) seckey
    let taghashout := sha (List.ofFn sharedsec ++ context)
    some (Fin.append tag fun i : Fin 7 => taghashout (i.castLE (by decide)),
      fun i => taghashout (i.natAdd 16))
  else none

/-- `check_tag`: the return value and the key, which keeps its old value `key` if the tag is
    refused. -/
def checkTag (sha : Sha) (j : Junk) (key : Fin 16 → Byte) (privkey : Fin 21 → Byte)
    (tag : Fin 28 → Byte) (context : List Byte) : Option (ℕ × (Fin 16 → Byte)) :=
  if context.length ≤ maxContextLen then
    let sharedsec := ptwistPointmul j (fun i => tag (i.castAdd 7)) privkey
    let taghashout := sha (List.ofFn sharedsec ++ context)
    let ret := if (fun i : Fin 7 => tag (i.natAdd 21)) = fun i => taghashout (i.castLE (by decide))
      then 0 else 1
    some (ret, if ret = 0 then fun i => taghashout (i.natAdd 16) else key)
  else none

/-- The station accepts every tag made with `s` for the public key of `k` and finds its key, for
    every hash, context and content of unwritten memory. -/
def Agrees (usetwist : Byte) (k s : Fin 21 → Byte) : Prop :=
  ∀ (sha : Sha) (jmain jtwist jtag jsec j : Junk) (key₀ : Fin 16 → Byte) (context : List Byte),
    context.length ≤ maxContextLen →
    ∃ tag key, genTag sha jtag jsec (genkeys jmain jtwist k) usetwist s context = some (tag, key) ∧
      checkTag sha j key₀ k tag context = some (0, key)

/-! ### The shared secret -/

/-- The generator the curve bit selects. -/
def gen (usetwist : Byte) : Fin 21 → Byte := if usetwist &&& 1#8 ≠ 0 then twistgen else maingen

/-- The shared secret on the tag's side: the public key, computed with `jpub`, times `s`. -/
def secret (usetwist : Byte) (jpub jsec : Junk) (k s : Fin 21 → Byte) : Fin 21 → Byte :=
  ptwistPointmul jsec (ptwistPointmul jpub (gen usetwist) k) s

theorem genTag_eq (sha : Sha) (jmain jtwist jtag jsec : Junk) (usetwist : Byte)
    (k s : Fin 21 → Byte) {context : List Byte} (h : context.length ≤ maxContextLen) :
    genTag sha jtag jsec (genkeys jmain jtwist k) usetwist s context =
      let hash := sha (List.ofFn (secret usetwist (if usetwist &&& 1#8 ≠ 0 then jtwist else jmain)
        jsec k s) ++ context)
      some (Fin.append (ptwistPointmul jtag (gen usetwist) s)
        fun i : Fin 7 => hash (i.castLE (by decide)), fun i => hash (i.natAdd 16)) := by
  simp only [genTag, if_pos h, genkeys, secret, gen]
  split <;> rfl

theorem checkTag_append (sha : Sha) (j : Junk) (key : Fin 16 → Byte) (k : Fin 21 → Byte)
    (tag : Fin 21 → Byte) (show7 : Fin 7 → Byte) {context : List Byte}
    (h : context.length ≤ maxContextLen) :
    checkTag sha j key k (Fin.append tag show7) context =
      let hash := sha (List.ofFn (ptwistPointmul j tag k) ++ context)
      if show7 = fun i => hash (i.castLE (by decide)) then some (0, fun i => hash (i.natAdd 16))
      else some (1, key) := by
  have hl : (fun i : Fin 21 => Fin.append tag show7 (i.castAdd 7)) = tag :=
    funext (Fin.append_left tag show7)
  have hr : (fun i : Fin 7 => Fin.append tag show7 (i.natAdd 21)) = show7 :=
    funext (Fin.append_right tag show7)
  simp only [checkTag, if_pos h, hl, hr]
  split <;> rfl

/-- The two sides agree exactly if their shared secrets do: on the left the public key times `s`, on
    the right the tag times `k`. -/
theorem agrees_iff {usetwist : Byte} {k s : Fin 21 → Byte} :
    Agrees usetwist k s ↔ ∀ jpub jsec jtag j,
      secret usetwist jpub jsec k s = secret usetwist jtag j s k := by
  constructor
  · intro h jpub jsec jtag j
    by_contra hne
    -- a hash that tells the two secrets apart
    let sha : Sha := fun l _ => if l = List.ofFn (secret usetwist jpub jsec k s) then 0 else 1
    obtain ⟨tag, key, hg, hc⟩ := h sha jpub jpub jtag jsec j (fun _ => 0) [] (by decide)
    rw [genTag_eq _ _ _ _ _ _ _ _ (by decide), ite_self, Option.some.injEq, Prod.mk.injEq] at hg
    rw [← hg.1, checkTag_append _ _ _ _ _ _ (by decide), if_neg, Option.some.injEq,
      Prod.mk.injEq] at hc
    · exact absurd hc.1 (by decide)
    · intro he
      have h0 := congrFun he 0
      have hne' : List.ofFn (ptwistPointmul j (ptwistPointmul jtag (gen usetwist) s) k) ≠
          List.ofFn (secret usetwist jpub jsec k s) := fun hl => hne (List.ofFn_injective hl).symm
      simp only [sha, List.append_nil, if_true, if_neg hne'] at h0
      exact absurd h0 (by decide)
  · intro h sha jmain jtwist jtag jsec j key₀ context hlen
    refine ⟨_, _, genTag_eq sha jmain jtwist jtag jsec usetwist k s hlen, ?_⟩
    rw [checkTag_append _ _ _ _ _ _ hlen, h _ jsec jtag j]
    exact if_pos rfl

theorem agrees_comm {usetwist : Byte} {k s : Fin 21 → Byte} :
    Agrees usetwist k s ↔ Agrees usetwist s k := by
  rw [agrees_iff, agrees_iff]
  exact ⟨fun h a b c d => (h c d a b).symm, fun h a b c d => (h c d a b).symm⟩

/-! ### What the multiplications show -/

/-- The residue the twist branch encodes for the abscissa `u`. -/
def shown (u : ZMod p) : ℕ := if 257 ≤ u.val ∧ u.val ≤ 513 then u.val - 257 else u.val

/-- The multiple of `X` by `s` is finite and `w` is the number written for it. -/
def Shown (X : ZMod p) (s w : ℕ) : Prop :=
  ∃ u, XMult X s u ∧ (IsSquare (rhs X) → w = u.val) ∧ (¬IsSquare (rhs X) → w = shown u)

theorem encode_negVal (u : ZMod p) : encode 21 (negVal (-u).val) = encode 21 (shown u) := by
  have hlt := u.val_lt
  have hp : p = 2 ^ 168 - 2 ^ 8 - 1 := rfl
  rw [negVal_neg, shown, encode_inj, show (256 : ℕ) ^ 21 = 2 ^ 168 by decide]
  split_ifs with h
  · rw [show p + u.val = u.val - 257 + 2 ^ 168 by omega, Nat.add_mod_right]
  · rfl

variable {X : ZMod p} {w w' : ℕ}

theorem Shown.lt {s : ℕ} (h : Shown X s w) : w < 256 ^ 21 := by
  obtain ⟨u, -, h1, h2⟩ := h
  have hlt := u.val_lt
  have hp : p < 256 ^ 21 := by decide
  by_cases hX : IsSquare (rhs X)
  · rw [h1 hX]; omega
  · rw [h2 hX, shown]; split_ifs <;> omega

theorem Shown.eq {junk : Junk} {x s : Fin 21 → Byte} (h : Shown (leNat x) (leNat s) w) :
    ptwistPointmul junk x s = encode 21 w := by
  obtain ⟨u, hu, h1, h2⟩ := h
  rcases hu with ⟨hsq, A, hA, hu⟩ | ⟨hns, A, hA, hu⟩
  · rw [ptwistPointmul_main hsq hA hu, h1 hsq]
  · rw [ptwistPointmul_twist hns hA hu, encode_negVal, h2 hns]

theorem secret_eq {usetwist : Byte} {jpub jsec : Junk} {k s : Fin 21 → Byte}
    (hk : Shown (leNat (gen usetwist)) (leNat k) w) (hs : Shown (w : ZMod p) (leNat s) w') :
    secret usetwist jpub jsec k s = encode 21 w' := by
  have hw : leNat (encode 21 w) = w := by rw [leNat_encode, Nat.mod_eq_of_lt hk.lt]
  rw [secret, hk.eq]
  exact Shown.eq (by rw [hw]; exact hs)

/-- Every abscissa has a point on one of the curves. -/
theorem exists_hasX (X : ZMod p) : (IsSquare (rhs X) ∧ ∃ A : E.Point, HasX A X) ∨
    (¬IsSquare (rhs X) ∧ ∃ A : E'.Point, HasX A (-X)) := by
  by_cases h : IsSquare (rhs X)
  · exact Or.inl ⟨h, _, _, main_nonsingular_iff.mpr (sqrt_sq_of_isSquare h), rfl⟩
  · exact Or.inr ⟨h, _, _, twist_nonsingular_iff.mpr (by
      rw [sqrt_sq_of_not_isSquare h, rhs_eq]; ring), rfl⟩

theorem not_dvd_mainOrder {s : Fin 21 → Byte} (h0 : leNat s ≠ 0) : ¬mainOrder ∣ leNat s :=
  fun h => absurd (Nat.le_of_dvd (Nat.pos_of_ne_zero h0) h)
    (not_le.mpr ((leNat_lt s).trans (by decide)))

/-- A scalar that is nonzero modulo the twist's order has a finite multiple everywhere. -/
theorem exists_shown (X : ZMod p) {s : Fin 21 → Byte} (h : ¬twistOrder ∣ leNat s) :
    ∃ w, Shown X (leNat s) w := by
  have h0 : leNat s ≠ 0 := fun h0 => h (h0 ▸ dvd_zero _)
  rcases exists_hasX X with ⟨hX, A, hA⟩ | ⟨hX, A, hA⟩
  · obtain ⟨u, hu⟩ := hasX_of_ne_zero ((nsmul_main_eq_zero_iff hA.ne_zero _).not.mpr
      (not_dvd_mainOrder h0))
    exact ⟨u.val, u, Or.inl ⟨hX, A, hA, hu⟩, fun _ => rfl, fun h => absurd hX h⟩
  · obtain ⟨u, hu⟩ := hasX_of_ne_zero ((nsmul_twist_eq_zero_iff hA.ne_zero _).not.mpr h)
    exact ⟨shown (-u), -u, Or.inr ⟨hX, A, hA, by rwa [neg_neg]⟩, fun h => absurd h hX, fun _ => rfl⟩

theorem shown_main {A : E.Point} {u : ZMod p} {s : ℕ} (hA : HasX A X) (hu : HasX (s • A) u) :
    Shown X s u.val :=
  have h := isSquare_of_hasX hA
  ⟨u, Or.inl ⟨h, A, hA, hu⟩, fun _ => rfl, fun hn => absurd h hn⟩

theorem shown_twist {A : E'.Point} {u : ZMod p} {s : ℕ} (hA : HasX A (-X))
    (hu : HasX (s • A) (-u)) : Shown X s (shown u) :=
  have h := not_isSquare_of_hasX hA
  ⟨u, Or.inr ⟨h, A, hA, hu⟩, fun hn => absurd hn h, fun _ => rfl⟩

theorem leNat_gen (usetwist : Byte) :
    (leNat (gen usetwist) : ZMod p) = if usetwist &&& 1#8 = 0 then 2 else 0 := by
  have hm : leNat maingen = 2 := by decide
  have ht : leNat twistgen = 0 := by decide
  by_cases h : usetwist &&& 1#8 = 0
  · rw [gen, if_neg (not_not.mpr h), if_pos h, hm, Nat.cast_ofNat]
  · rw [gen, if_pos h, if_neg h, ht, Nat.cast_zero]

/-! ### Scalars with a finite multiple -/

section Agree
variable {usetwist : Byte} {k s : Fin 21 → Byte}

theorem agrees_main (hb : usetwist &&& 1#8 = 0) (hk : ¬mainOrder ∣ leNat k)
    (hs : ¬mainOrder ∣ leNat s) : Agrees usetwist k s := by
  have hfin : ∀ {j : ℕ} {A : E.Point}, A ≠ 0 → ¬mainOrder ∣ j → ∃ u, HasX (j • A) u :=
    fun hA hj => hasX_of_ne_zero ((nsmul_main_eq_zero_iff hA _).not.mpr hj)
  obtain ⟨a, ha⟩ := hfin hasX_mainG.ne_zero hk
  obtain ⟨b, hb'⟩ := hfin hasX_mainG.ne_zero hs
  obtain ⟨m, hm⟩ := hfin ha.ne_zero hs
  have hm' : HasX (leNat k • leNat s • mainG) m := by rwa [smul_comm]
  rw [agrees_iff]
  intro jpub jsec jtag j
  have hg : (leNat (gen usetwist) : ZMod p) = 2 := by rw [leNat_gen, if_pos hb]
  rw [secret_eq (hg ▸ shown_main hasX_mainG ha) (shown_main (by simpa using ha) hm),
    secret_eq (hg ▸ shown_main hasX_mainG hb') (shown_main (by simpa using hb') hm')]

/-- The public key and the tag, as written, still lead to one secret. -/
def Coincide (k s : ℕ) : Prop := ∃ a b m, Shown 0 k a ∧ Shown a s m ∧ Shown 0 s b ∧ Shown b k m

theorem agrees_twist_iff (hb : usetwist &&& 1#8 ≠ 0) (hk : ¬twistOrder ∣ leNat k)
    (hs : ¬twistOrder ∣ leNat s) : Agrees usetwist k s ↔ Coincide (leNat k) (leNat s) := by
  have hg : (leNat (gen usetwist) : ZMod p) = 0 := by rw [leNat_gen, if_neg hb]
  rw [agrees_iff]
  constructor
  · intro h
    obtain ⟨a, ha⟩ := exists_shown 0 hk
    obtain ⟨b, hb'⟩ := exists_shown 0 hs
    obtain ⟨m, hm⟩ := exists_shown a hs
    obtain ⟨m', hm'⟩ := exists_shown b hk
    have hj : Junk := ⟨0, three⟩
    have he := h hj hj hj hj
    rw [secret_eq (hg ▸ ha) hm, secret_eq (hg ▸ hb') hm', encode_inj, Nat.mod_eq_of_lt hm.lt,
      Nat.mod_eq_of_lt hm'.lt] at he
    exact ⟨a, b, m, ha, hm, hb', he ▸ hm'⟩
  · rintro ⟨a, b, m, ha, hm, hb', hm'⟩ jpub jsec jtag j
    rw [secret_eq (hg ▸ ha) hm, secret_eq (hg ▸ hb') hm']

/-- Where `felem_neg` spoils neither the public key nor the tag, the secrets coincide. -/
theorem coincide_of_not_spoiled {k s : ℕ} (hk : ¬twistOrder ∣ k) (hs : ¬twistOrder ∣ s)
    (hk' : ¬Spoiled 0 k) (hs' : ¬Spoiled 0 s) : Coincide k s := by
  have hfin : ∀ {j : ℕ} {A : E'.Point}, A ≠ 0 → ¬twistOrder ∣ j → ∃ u, HasX (j • A) (-u) :=
    fun hA hj => by
      obtain ⟨u, hu⟩ := hasX_of_ne_zero ((nsmul_twist_eq_zero_iff hA _).not.mpr hj)
      exact ⟨-u, by rwa [neg_neg]⟩
  have hshown : ∀ {j : ℕ} {u : ZMod p}, ¬Spoiled 0 j → HasX (j • twistG) (-u) →
      shown u = u.val := fun hj hu => if_neg fun hr => hj
    ⟨not_isSquare_of_hasX hasX_twistG, twistG, hasX_twistG, _, hr.1, hr.2, by simpa using hu⟩
  obtain ⟨a, ha⟩ := hfin hasX_twistG.ne_zero hk
  obtain ⟨b, hb⟩ := hfin hasX_twistG.ne_zero hs
  obtain ⟨m, hm⟩ := hfin ha.ne_zero hs
  have hm' : HasX (k • s • twistG) (-m) := by rwa [smul_comm]
  refine ⟨a.val, b.val, shown m, hshown hk' ha ▸ shown_twist hasX_twistG ha,
    shown_twist (by simpa using ha) hm, hshown hs' hb ▸ shown_twist hasX_twistG hb,
    shown_twist (by simpa using hb) hm'⟩

/-! ### Scalars with a multiple at infinity -/

/-- Any small number can be written when nothing is. -/
theorem exists_junk_of_zero {a : ℕ} (h0 : 0 < a) (ha : a < 257)
    (hs : if usetwist &&& 1#8 = 0 then mainOrder ∣ leNat s else twistOrder ∣ leNat s) :
    ∃ junk, ptwistPointmul junk (gen usetwist) s = encode 21 a := by
  have hg := leNat_gen usetwist
  by_cases hb : usetwist &&& 1#8 = 0
  · rw [if_pos hb] at hg hs
    obtain ⟨l0, l1, -, hv⟩ := bin21ToFelem_val 0 (encode 21 a)
    refine ⟨⟨0, bin21ToFelem 0 (encode 21 a)⟩, ?_⟩
    have hz : leNat s • mainG = 0 := (nsmul_main_eq_zero_iff hasX_mainG.ne_zero _).mpr hs
    rw [ptwistPointmul_main_zero (hg ▸ isSquare_of_hasX hasX_mainG) (hg ▸ hasX_mainG) hz,
      felemToBin21_eq l0 l1, hv, leNat_encode, encode_inj, Nat.mod_mod]
  · rw [if_neg hb] at hg hs
    obtain ⟨l0, l1, l2, hv⟩ := bin21ToFelem_val 0 (encode 21 (p - a))
    obtain ⟨c0, c1, -, hc⟩ := felemNeg_val l0 l1 l2.le
    refine ⟨⟨0, bin21ToFelem 0 (encode 21 (p - a))⟩, ?_⟩
    have hz : leNat s • twistG = 0 := (nsmul_twist_eq_zero_iff hasX_twistG.ne_zero _).mpr hs
    have hp : p = 2 ^ 168 - 2 ^ 8 - 1 := rfl
    have hv' : leNat (encode 21 (p - a)) = p - a := by
      rw [leNat_encode, Nat.mod_eq_of_lt (by rw [hp]; omega)]
    have hneg : negVal (p - a) = a := by
      rw [negVal, if_neg (by omega), if_pos (by omega)]; omega
    rw [ptwistPointmul_twist_zero (hg ▸ not_isSquare_of_hasX hasX_twistG) (hg ▸ hasX_twistG) hz,
      felemToBin21_eq c0 c1, hc, hv, hv', hneg]

/-- The ordinate of a point over `x = 3`. -/
def threeY : ℕ := 129713841662984075121365226059308159290993407582460

theorem exists_hasX_three : ∃ A : E.Point, HasX A 3 :=
  ⟨_, (threeY : ZMod p), main_nonsingular_iff.mpr (by
    simpa [bCoeff] using cast_equation (m := 3) (n := threeY) (k := b.val) (by decide)), rfl⟩

/-- A fixed scalar gives two different results on small abscissas. -/
theorem exists_ne (k : Fin 21 → Byte) : ∃ a b, (0 < a ∧ a < 257) ∧ (0 < b ∧ b < 257) ∧ ∃ j j',
    ptwistPointmul j (encode 21 a) k ≠ ptwistPointmul j' (encode 21 b) k := by
  have h2 : ((leNat (encode 21 2) : ℕ) : ZMod p) = 2 := by rw [leNat_encode]; norm_num
  have h3 : ((leNat (encode 21 3) : ℕ) : ZMod p) = 3 := by rw [leNat_encode]; norm_num
  obtain ⟨B, hB⟩ := exists_hasX_three
  by_cases hk : leNat k = 0
  · refine ⟨2, 2, by decide, by decide, ⟨0, one⟩, ⟨0, three⟩, ?_⟩
    have hz : leNat k • mainG = 0 := by rw [hk, zero_nsmul]
    rw [ptwistPointmul_main_zero (h2 ▸ isSquare_of_hasX hasX_mainG) (h2 ▸ hasX_mainG) hz,
      ptwistPointmul_main_zero (h2 ▸ isSquare_of_hasX hasX_mainG) (h2 ▸ hasX_mainG) hz]
    exact fun h => absurd (congrFun h 0) (by decide)
  · refine ⟨2, 3, by decide, by decide, ⟨0, one⟩, ⟨0, one⟩, ?_⟩
    have hfin : ∀ {A : E.Point}, A ≠ 0 → leNat k • A ≠ 0 := fun hA =>
      (nsmul_main_eq_zero_iff hA _).not.mpr (not_dvd_mainOrder hk)
    obtain ⟨u, hu⟩ := hasX_of_ne_zero (hfin hasX_mainG.ne_zero)
    obtain ⟨v, hv⟩ := hasX_of_ne_zero (hfin hB.ne_zero)
    rw [(shown_main (h2 ▸ hasX_mainG) hu).eq, (shown_main (h3 ▸ hB) hv).eq, ne_eq, encode_inj,
      Nat.mod_eq_of_lt (shown_main hasX_mainG hu).lt, Nat.mod_eq_of_lt (shown_main hB hv).lt,
      (ZMod.val_injective p).eq_iff]
    rintro rfl
    have heq : mainG = B ∨ mainG = -B := by
      rcases hu.eq_or_neg hv with h | h
      · left
        by_contra hne
        exact hfin (sub_ne_zero.mpr hne) (by rw [nsmul_sub, h, sub_self])
      · right
        by_contra hne
        exact hfin (fun h0 => hne (eq_neg_of_add_eq_zero_left h0))
          (by rw [nsmul_add, h, neg_add_cancel])
    have h23 : (2 : ZMod p) = 3 := by
      rcases heq with h | h
      · exact (h ▸ hasX_mainG).unique hB
      · exact (h ▸ hasX_mainG).unique hB.neg
    exact one_ne_zero (show (1 : ZMod p) = 0 by linear_combination -h23)

/-- A multiple at infinity on either side breaks the agreement. -/
theorem not_agrees_of_dvd
    (hs : if usetwist &&& 1#8 = 0 then mainOrder ∣ leNat s else twistOrder ∣ leNat s) :
    ¬Agrees usetwist k s := by
  intro h
  rw [agrees_iff] at h
  obtain ⟨a, b, ⟨ha0, ha⟩, ⟨hb0, hb⟩, j, j', hne⟩ := exists_ne k
  obtain ⟨ja, hja⟩ := exists_junk_of_zero ha0 ha hs
  obtain ⟨jb, hjb⟩ := exists_junk_of_zero hb0 hb hs
  have h1 := h j j ja j
  have h2 := h j j jb j'
  rw [secret, secret, hja] at h1
  rw [secret, secret, hjb] at h2
  exact hne (h1.symm.trans h2)

/-- The exact scalars for which tag and station agree: both multiples of the generator are finite
    and, on the twist, a spoiled public key or tag agrees by coincidence only. -/
theorem tag_agreement_iff (usetwist : Byte) (k s : Fin 21 → Byte) :
    Agrees usetwist k s ↔
      if usetwist &&& 1#8 = 0 then ¬mainOrder ∣ leNat k ∧ ¬mainOrder ∣ leNat s
      else ¬twistOrder ∣ leNat k ∧ ¬twistOrder ∣ leNat s ∧
        (Spoiled 0 (leNat k) ∨ Spoiled 0 (leNat s) → Coincide (leNat k) (leNat s)) := by
  have hzero : ∀ {k s : Fin 21 → Byte}, Agrees usetwist k s →
      ¬if usetwist &&& 1#8 = 0 then mainOrder ∣ leNat s else twistOrder ∣ leNat s :=
    fun h hs => not_agrees_of_dvd hs h
  by_cases hb : usetwist &&& 1#8 = 0
  · simp only [if_pos hb] at hzero ⊢
    exact ⟨fun h => ⟨hzero (agrees_comm.mp h), hzero h⟩, fun h => agrees_main hb h.1 h.2⟩
  · simp only [if_neg hb] at hzero ⊢
    constructor
    · intro h
      have hk := hzero (agrees_comm.mp h)
      exact ⟨hk, hzero h, fun _ => (agrees_twist_iff hb hk (hzero h)).mp h⟩
    · rintro ⟨hk, hs, hsp⟩
      refine (agrees_twist_iff hb hk hs).mpr ?_
      by_cases h : Spoiled 0 (leNat k) ∨ Spoiled 0 (leNat s)
      · exact hsp h
      · rw [not_or] at h
        exact coincide_of_not_spoiled hk hs h.1 h.2

end Agree

/-- With the secret key 0 on the main curve, the private key 1 does not always accept. -/
theorem not_agrees_zero : ¬Agrees 0 (encode 21 1) (encode 21 0) := by
  apply not_agrees_of_dvd
  rw [if_pos (by decide), leNat_encode]
  exact dvd_zero _

end Telex.Tag
