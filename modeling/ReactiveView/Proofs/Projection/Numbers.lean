import Mathlib.Data.Nat.Log
import Mathlib.Tactic.Ring
import Mathlib.Tactic.NormNum
import ReactiveView.Value.Text

/-!
# Whole numbers as floating-point numbers and back

A whole number below `2 ^ 53` has at most fifty-three binary digits, so nothing is rounded when it is read
as a floating-point number, and it comes back from its exact form (`integer?_floatOfInt`). Rounding, packing
and unpacking are followed on numbers whose digits are made up to fifty-three by zeros (`widened`).

What the library decides about a number that is whole depends on the whole number alone: whether a type
accepts it, and the text that it leaves in a view (`viewText_of_integer?`). So a number that goes through
plain data shows as before, though a negative zero loses its sign on the way (`Json.ofFloat_cases`).
-/

set_option autoImplicit false

namespace ReactiveView

open Float.Model Float.Model.UnpackedFloat

/-- A factor of two adds a binary digit. -/
theorem log2_mul_two_pow {m : Nat} (hm : m ≠ 0) (j : Nat) : (m * 2 ^ j).log2 = m.log2 + j := by
  induction j with
  | zero => simp
  | succ j ih =>
    have hne : m * 2 ^ j ≠ 0 := by positivity
    rw [show m * 2 ^ (j + 1) = 2 * (m * 2 ^ j) by ring, Nat.log2_two_mul hne, ih, Nat.add_assoc]

/-- Shifting out zeros is exact. -/
theorem shiftRight_exact (m j : Nat) :
    ExtendedMantissa.mk (m * 2 ^ j) false false >>> j = ExtendedMantissa.mk m false false := by
  induction j generalizing m with
  | zero => simp [HShiftRight.hShiftRight, Nat.repeat]
  | succ j ih =>
    have hsplit : m * 2 ^ (j + 1) = (m * 2) * 2 ^ j := by ring
    have hstep : ExtendedMantissa.mk (m * 2 ^ (j + 1)) false false >>> (j + 1) =
        (ExtendedMantissa.mk (m * 2 ^ (j + 1)) false false >>> j).shiftRightOne := rfl
    rw [hstep, hsplit, ih (m * 2)]
    simp [ExtendedMantissa.shiftRightOne]

section Exact

variable {m : Nat} {e : Int} (hm : m ≠ 0) (hlog : m.log2 = 52) (he : -1074 ≤ e)

include hm hlog he

/-- The exponent at which a number has its `53` digits. -/
theorem targetExponent_exact (j : Nat) :
    Format.binary64.targetExponent (totalExponent (m * 2 ^ j) (e - j)) = e := by
  have hbits : Format.binary64.mantissaBits = 53 := rfl
  simp only [Format.targetExponent, totalExponent, hbits, Format.minExponent, log2_mul_two_pow hm, hlog]
  norm_num
  omega

theorem shiftToTargetExponent_exact (j : Nat) :
    shiftToTargetExponent Format.binary64 (m * 2 ^ j) (e - j) .exact = (⟨m, false, false⟩, e) := by
  have hshift : (e - (e - (j : Int))).toNat = j := by omega
  unfold shiftToTargetExponent shiftToExponent
  simp only [targetExponent_exact hm hlog he, hshift, ExtendedMantissa.ofMantissaAndAccuracy,
    shiftRight_exact]
  simp

/-- A number whose digits fit is rounded to itself. -/
theorem roundWithAccuracy_exact (s : Sign) (j : Nat) :
    roundWithAccuracy Format.binary64 s (m * 2 ^ j) (e - j) .exact =
      .finite s m e (Nat.pos_of_ne_zero hm) := by
  have hagain : shiftToTargetExponent Format.binary64 m e .exact = (⟨m, false, false⟩, e) := by
    simpa using shiftToTargetExponent_exact hm hlog he 0
  have hfinite (r : ExtendedMantissa × Int) (hr : r = (⟨m, false, false⟩, e)) :
      (if h : r.1.mantissa = 0 then UnpackedFloat.zero s else .finite s r.1.mantissa r.2 (Nat.pos_of_ne_zero h)) =
        .finite s m e (Nat.pos_of_ne_zero hm) := by
    subst hr
    exact dif_neg hm
  unfold roundWithAccuracy
  rw [shiftToTargetExponent_exact hm hlog he j]
  exact hfinite _ hagain

end Exact

/-- The natural number `k` with all its `53` digits. -/
def widened (k : Nat) : Nat := k * 2 ^ (52 - k.log2)

section Whole

variable {k : Nat} (hk : k ≠ 0) (hlt : k < 2 ^ 53)

include hk

theorem widened_ne_zero : widened k ≠ 0 := by
  unfold widened
  positivity

include hlt

theorem log2_widened : (widened k).log2 = 52 := by
  have hlog : k.log2 < 53 := (Nat.log2_lt hk).2 hlt
  unfold widened
  rw [log2_mul_two_pow hk]
  omega

/-- A natural number below `2 ^ 53` is represented by its digits. -/
theorem ofNat_binary64 : UnpackedFloat.ofNat Format.binary64 k =
    .finite .positive (widened k) (k.log2 - 52) (Nat.pos_of_ne_zero (widened_ne_zero hk)) := by
  have hlog : k.log2 < 53 := (Nat.log2_lt hk).2 hlt
  have hround := roundWithAccuracy_exact (e := (k.log2 : Int) - 52) (widened_ne_zero hk)
    (log2_widened hk hlt) (by omega) .positive 0
  have htarget : Format.binary64.targetExponent (totalExponent k 0) = (k.log2 : Int) - 52 := by
    have hbits : Format.binary64.mantissaBits = 53 := rfl
    simp only [Format.targetExponent, totalExponent, hbits, Format.minExponent]
    norm_num
    omega
  have hcmp : compare (k : Int) 0 = .gt := by
    rw [compare_gt_iff_gt]
    omega
  have hamount : (0 - ((k.log2 : Int) - 52)).toNat = 52 - k.log2 := by omega
  have hexponent : 0 - ((52 - k.log2 : Nat) : Int) = (k.log2 : Int) - 52 := by omega
  unfold UnpackedFloat.ofNat UnpackedFloat.ofInt UnpackedFloat.normalize
  rw [hcmp]
  dsimp only
  unfold UnpackedFloat.round decreaseExponent
  rw [Int.toNat_natCast, htarget]
  dsimp only
  rw [hamount, Nat.shiftLeft_eq, hexponent]
  rw [Nat.pow_zero, Nat.mul_one, Int.natCast_zero, Int.sub_zero] at hround
  exact hround

end Whole

theorem unpackSign_packComponents {spec : Float.Model.Format} {sign : Sign} {exponent : BitVec spec.exponentBits}
    {mantissa : BitVec spec.mantissaBitsWithoutImplicit} :
    unpackSign (packComponents spec sign exponent mantissa) = sign.toBitVec := by
  ext i hi
  obtain rfl : i = 0 := by omega
  delta unpackSign packComponents
  simp [BitVec.getLsbD_append]
  simp [BitVec.getElem_append]

theorem toNat_append' {n m : Nat} (x : BitVec n) (y : BitVec m) :
    (x ++ y).toNat = x.toNat * 2 ^ m + y.toNat := by
  rw [BitVec.toNat_append, ← Nat.shiftLeft_add_eq_or_of_lt y.isLt, Nat.shiftLeft_eq]

theorem toNat_packComponents (sign : Sign) (exponent : BitVec 11) (mantissa : BitVec 52) :
    (packComponents Format.binary64 sign exponent mantissa).toNat =
      sign.toBitVec.toNat * 2 ^ 63 + exponent.toNat * 2 ^ 52 + mantissa.toNat := by
  have h1 : (packComponents Format.binary64 sign exponent mantissa).toNat =
      (sign.toBitVec ++ exponent).toNat * 2 ^ 52 + mantissa.toNat := toNat_append' _ _
  have h2 : (sign.toBitVec ++ exponent).toNat = sign.toBitVec.toNat * 2 ^ 11 + exponent.toNat :=
    toNat_append' _ _
  rw [h1, h2]
  ring

theorem ofBitVec_toBitVec (s : Sign) : Sign.ofBitVec s.toBitVec = s := by
  cases s <;> rfl

section Normal

variable {s : Sign} {m : Nat} {e : Int} (hm : 0 < m) (hlog : m.log2 = 52) (hle : -1074 ≤ e) (hlt : e < 972)

include hlog hle hlt

/-- A normal number is packed into its sign, its exponent and the digits after the first. -/
theorem pack_normal : UnpackedFloat.pack Format.binary64 (.finite s m e hm) =
    packComponents Format.binary64 s (BitVec.ofNat 11 (e + 1075).toNat) (BitVec.ofNat 52 m) := by
  unfold UnpackedFloat.pack
  dsimp only
  have hbias : ((Format.binary64.exponentBias : Nat) : Int) = 1023 := rfl
  rw [hbias]
  have h1 : ¬ (2 ^ 11 ≤ (e + 1023 + ((52 : Nat) : Int)).toNat + 1) := by omega
  have h2 : m.log2 + 1 = Format.binary64.mantissaBits := by rw [hlog]; rfl
  rw [if_neg h1, if_pos h2]
  congr 2
  omega

/-- Unpacking a packed normal number gives it back. -/
theorem unpack_pack_normal : UnpackedFloat.unpack Format.binary64 (UnpackedFloat.pack Format.binary64 (.finite s m e hm)) =
    .finite s m e hm := by
  have hdigits := (Nat.log2_eq_iff hm.ne').1 hlog
  have hexp : (e + 1075).toNat < 2 ^ 11 - 1 ∧ (e + 1075).toNat ≠ 0 := by omega
  have hexpNat : (BitVec.ofNat 11 (e + 1075).toNat).toNat = (e + 1075).toNat := by
    rw [BitVec.toNat_ofNat, Nat.mod_eq_of_lt (by omega)]
  have hmant : (BitVec.ofNat 52 m).toNat = m - 2 ^ 52 := by
    rw [BitVec.toNat_ofNat]
    omega
  have hones : (BitVec.ofNat 11 (e + 1075).toNat) ≠ -1#11 := by
    intro h
    have h' := congrArg BitVec.toNat h
    rw [hexpNat] at h'
    have : (-1#11 : BitVec 11).toNat = 2 ^ 11 - 1 := rfl
    omega
  have hzero : (BitVec.ofNat 11 (e + 1075).toNat) ≠ 0#11 := by
    intro h
    have h' := congrArg BitVec.toNat h
    rw [hexpNat] at h'
    exact hexp.2 h'
  rw [pack_normal hm hlog hle hlt]
  unfold UnpackedFloat.unpack
  dsimp only
  rw [unpackExponent_packComponents, if_neg hones, if_neg hzero, UnpackedFloat.finite.injEq,
    unpackSign_packComponents, unpackMantissa_packComponents, toNat_append', hmant, hexpNat]
  refine ⟨ofBitVec_toBitVec s, ?_, ?_⟩
  · change 1 * 2 ^ 52 + (m - 2 ^ 52) = m
    omega
  · have hbias : ((Format.binary64.exponentBias : Nat) : Int) = 1023 := rfl
    rw [hbias]
    change ((e + 1075).toNat : Int) - (1023 + 52) = e
    omega

end Normal


/-- The exact form of a packed normal number. -/
theorem ofFloat_pack {s : Sign} {m : Nat} {e : Int} (hm : 0 < m) (hlog : m.log2 = 52)
    (hle : -1074 ≤ e) (hlt : e < 972) :
    Binary.ofFloat (.ofModel (Float.Model.pack (.finite s m e hm))) =
      .finite (s.toBitVec.toNat == 1) m e := by
  have hdigits := (Nat.log2_eq_iff hm.ne').1 hlog
  have hsign : s.toBitVec.toNat < 2 := s.toBitVec.isLt
  have hbits : (Float.toBits (.ofModel (Float.Model.pack (.finite s m e hm)))).toNat =
      s.toBitVec.toNat * 2 ^ 63 + (e + 1075).toNat * 2 ^ 52 + (m - 2 ^ 52) := by
    have hpack : (Float.toBits (.ofModel (Float.Model.pack (.finite s m e hm)))).toNat =
        (UnpackedFloat.pack Format.binary64 (.finite s m e hm)).toNat := rfl
    rw [hpack, pack_normal hm hlog hle hlt, toNat_packComponents, BitVec.toNat_ofNat, BitVec.toNat_ofNat]
    omega
  unfold Binary.ofFloat
  rw [hbits]
  unfold Binary.ofBits
  simp only [Nat.pow_eq]
  generalize s.toBitVec.toNat = b at hsign ⊢
  have hnegative : (b * 2 ^ 63 + (e + 1075).toNat * 2 ^ 52 + (m - 2 ^ 52)) / 2 ^ 63 % 2 = b := by omega
  have hscale : (b * 2 ^ 63 + (e + 1075).toNat * 2 ^ 52 + (m - 2 ^ 52)) / 2 ^ 52 % 2048 =
      (e + 1075).toNat := by omega
  have hfraction : (b * 2 ^ 63 + (e + 1075).toNat * 2 ^ 52 + (m - 2 ^ 52)) % 2 ^ 52 = m - 2 ^ 52 := by omega
  rw [hnegative, hscale, hfraction, if_neg (by omega), if_neg (by omega)]
  have hdigits' : 2 ^ 52 + (m - 2 ^ 52) = m := by omega
  have hexponent : ((e + 1075).toNat : Int) - 1075 = e := by omega
  rw [hdigits', hexponent]

section Whole

variable {k : Nat} (hk : k ≠ 0) (hlt : k < 2 ^ 53)

include hlt

/-- A natural number below `2 ^ 53` as a floating-point number. -/
theorem ofScientific_eq : Float.ofScientific k false 0 = .ofModel (Float.Model.pack
    (.finite .positive (widened k) (k.log2 - 52) (Nat.pos_of_ne_zero (widened_ne_zero hk)))) := by
  have hlog : k.log2 < 53 := (Nat.log2_lt hk).2 hlt
  have hone : (Float.Model.ofBits 0x3FF0000000000000).unpack =
      .finite .positive (2 ^ 52) (-52) (by decide) := rfl
  have hsize : 0 < Float.exactlyRepresentablePowersOfTen.size := by decide
  have hpower : Float.exactlyRepresentablePowersOfTen[0] = Float.ofBits 0x3FF0000000000000 := rfl
  have hnat : (Float.Model.ofUInt64 k.toUInt64).unpack =
      .finite .positive (widened k) (k.log2 - 52) (Nat.pos_of_ne_zero (widened_ne_zero hk)) := by
    have hsame : k.toUInt64.toNat = k := by
      rw [Nat.toUInt64_eq, UInt64.toNat_ofNat']
      omega
    change UnpackedFloat.unpack _ (UnpackedFloat.pack _ (UnpackedFloat.ofNat _ (k.toUInt64).toNat)) = _
    rw [hsame, ofNat_binary64 hk hlt]
    exact unpack_pack_normal _ (log2_widened hk hlt) (by omega) (by omega)
  unfold Float.ofScientific
  rw [dif_pos ⟨hlt, by decide⟩]
  dsimp only
  rw [if_neg (by decide), hpower]
  change Float.ofModel (Float.Model.pack (UnpackedFloat.mul _ (Float.Model.ofUInt64 k.toUInt64).unpack
    (Float.Model.ofBits 0x3FF0000000000000).unpack)) = _
  rw [hnat, hone]
  unfold UnpackedFloat.mul
  have hround := roundWithAccuracy_exact (e := (k.log2 : Int) - 52) (widened_ne_zero hk)
    (log2_widened hk hlt) (by omega) .positive 52
  exact congrArg (fun x => Float.ofModel (Float.Model.pack x)) hround

include hk

/-- Its exact form. -/
theorem ofFloat_ofScientific :
    Binary.ofFloat (Float.ofScientific k false 0) = .finite false (widened k) (k.log2 - 52) := by
  have hlog : k.log2 < 53 := (Nat.log2_lt hk).2 hlt
  rw [ofScientific_eq hk hlt]
  exact ofFloat_pack _ (log2_widened hk hlt) (by omega) (by omega)

theorem ofFloat_neg_ofScientific :
    Binary.ofFloat (-(Float.ofScientific k false 0)) = .finite true (widened k) (k.log2 - 52) := by
  have hlog : k.log2 < 53 := (Nat.log2_lt hk).2 hlt
  have hunpack : UnpackedFloat.unpack Format.binary64 (UnpackedFloat.pack Format.binary64
      (.finite .positive (widened k) (k.log2 - 52) (Nat.pos_of_ne_zero (widened_ne_zero hk)))) = _ :=
    unpack_pack_normal _ (log2_widened hk hlt) (by omega) (by omega)
  rw [ofScientific_eq hk hlt]
  change Binary.ofFloat (.ofModel (Float.Model.pack (UnpackedFloat.neg (UnpackedFloat.unpack _
    (UnpackedFloat.pack _ _))))) = _
  rw [hunpack]
  exact ofFloat_pack _ (log2_widened hk hlt) (by omega) (by omega)

/-- Its digits after the point are zeros. -/
theorem wholePart?_widened (negative : Bool) :
    (Binary.finite negative (widened k) (k.log2 - 52)).wholePart? = some k := by
  have hlog : k.log2 < 53 := (Nat.log2_lt hk).2 hlt
  have hpos : 0 < 2 ^ (52 - k.log2) := by positivity
  unfold Binary.wholePart? widened
  simp only [Nat.pow_eq]
  split
  · next h =>
    have hz : 52 - k.log2 = 0 := by omega
    have hz' : ((k.log2 : Int) - 52).toNat = 0 := by omega
    rw [hz, hz']
    simp
  · have hs : (-((k.log2 : Int) - 52)).toNat = 52 - k.log2 := by omega
    rw [hs, Nat.mul_mod_left, if_pos rfl, Nat.mul_div_cancel k hpos]

end Whole

/-- A zero has no fraction. -/
theorem wholePart?_zero (negative : Bool) (q : Int) : (Binary.finite negative 0 q).wholePart? = some 0 := by
  simp [Binary.wholePart?]

/-- A whole number below `2 ^ 53` denotes a floating-point number that is this whole number. -/
theorem integer?_floatOfInt {n : Int} (hn : n.natAbs < 2 ^ 53) :
    (Binary.ofFloat (Json.floatOfInt n)).integer? = some n := by
  by_cases hzero : n = 0
  · have hbits : Binary.ofFloat (Json.floatOfInt 0) = .finite false 0 (-1074) := by decide +kernel
    rw [hzero, hbits]
    unfold Binary.integer?
    rw [wholePart?_zero]
    rfl
  · have hk : n.natAbs ≠ 0 := by omega
    unfold Json.floatOfInt
    split
    · next hneg =>
      have hvalue : -(n.natAbs : Int) = n := by omega
      rw [ofFloat_neg_ofScientific hk hn]
      unfold Binary.integer?
      rw [wholePart?_widened hk hn]
      exact congrArg some hvalue
    · next hneg =>
      have hvalue : (n.natAbs : Int) = n := by omega
      rw [ofFloat_ofScientific hk hn]
      unfold Binary.integer?
      rw [wholePart?_widened hk hn]
      exact congrArg some hvalue

/-! ## What is decided on the exact form -/

namespace Binary

variable {b : Binary} {n : Int}

theorem exists_of_integer? (h : b.integer? = some n) : ∃ (negative : Bool) (m : Nat) (q : Int) (k : Nat),
    b = .finite negative m q ∧
    b.wholePart? = some k ∧ (m = 0 ↔ k = 0) ∧ n = if negative then -(k : Int) else k := by
  obtain ⟨k, hk, rfl⟩ : ∃ k, b.wholePart? = some k ∧ (if b.isNegative then -(k : Int) else k) = n := by
    unfold integer? at h
    cases hk : b.wholePart? with
    | none =>
      rw [hk] at h
      cases h
    | some k =>
      rw [hk] at h
      exact ⟨k, rfl, Option.some.inj h⟩
  cases b with
  | notANumber => cases hk
  | infinite negative => cases hk
  | finite negative m q =>
    refine ⟨negative, m, q, k, rfl, hk, ?_, rfl⟩
    unfold wholePart? at hk
    simp only [Nat.pow_eq] at hk
    split at hk
    · obtain rfl := Option.some.inj hk
      simp
    · split at hk
      · next hdvd =>
        obtain rfl := Option.some.inj hk
        have hdiv := Nat.div_add_mod m (2 ^ (-q).toNat)
        rw [hdvd, Nat.add_zero] at hdiv
        constructor
        · rintro rfl
          exact Nat.zero_div _
        · intro hzero
          rw [← hdiv, hzero, Nat.mul_zero]
      · cases hk

theorem isFinite_of_integer? (h : b.integer? = some n) : b.isFinite = true := by
  obtain ⟨negative, m, q, k, rfl, -⟩ := exists_of_integer? h
  rfl

theorem isWhole_of_integer? (h : b.integer? = some n) : b.isWhole = true := by
  obtain ⟨negative, m, q, k, -, hk, -⟩ := exists_of_integer? h
  unfold isWhole
  rw [hk]
  rfl

theorem isNonNegative_of_integer? (h : b.integer? = some n) : b.isNonNegative = decide (0 ≤ n) := by
  obtain ⟨negative, m, q, k, rfl, -, hm, rfl⟩ := exists_of_integer? h
  have hzero : (m == 0) = decide (k = 0) := by
    rw [Bool.eq_iff_iff, beq_iff_eq, decide_eq_true_iff]
    exact hm
  unfold isNonNegative
  dsimp only
  rw [hzero]
  cases negative with
  | false => simp
  | true => simp

end Binary

/-- The text that a whole number leaves in a view. -/
theorem viewText_of_integer? {x : Float} {n : Int} (h : (Binary.ofFloat x).integer? = some n)
    (hn : n.natAbs < 2 ^ 53) : Decimal.viewText x = String.ofList (Decimal.integerChars n) := by
  obtain ⟨negative, m, q, k, hx, hk, hm, rfl⟩ := Binary.exists_of_integer? h
  unfold Decimal.viewText
  rw [hx] at hk ⊢
  dsimp only
  congr 1
  by_cases hzero : m = 0
  · obtain rfl := hm.1 hzero
    rw [if_pos hzero]
    cases negative <;> rfl
  · have hpos : 0 < k := Nat.pos_of_ne_zero fun h0 => hzero (hm.2 h0)
    have hk53 : k < 2 ^ 53 := by
      cases negative <;> simp at hn <;> omega
    rw [if_neg hzero, hk]
    dsimp only
    rw [if_pos (Nat.lt_trans hk53 (by decide))]
    unfold Decimal.integerChars Decimal.signed
    cases negative with
    | false => simp
    | true =>
      rw [if_pos rfl, if_pos rfl, if_pos (by omega)]
      simp

namespace Json

/-- A finite number is projected to itself or, if it is a whole number below `2 ^ 53`, to that one. -/
theorem ofFloat_cases {x : Float} (h : (Binary.ofFloat x).isFinite = true) :
    ofFloat x = .number (.float x) ∨ ∃ n : Int, n.natAbs < 2 ^ 53 ∧
      (Binary.ofFloat x).integer? = some n ∧ ofFloat x = .number (.integer n) := by
  unfold ofFloat
  dsimp only
  rw [if_pos h]
  cases hn : (Binary.ofFloat x).integer? with
  | none => exact Or.inl rfl
  | some n =>
    dsimp only
    split
    · next hlt => exact Or.inr ⟨n, hlt, rfl, rfl⟩
    · exact Or.inl rfl

theorem ofFloat_of_integer? {x : Float} {n : Int} (h : (Binary.ofFloat x).integer? = some n)
    (hn : n.natAbs < 2 ^ 53) : ofFloat x = .number (.integer n) := by
  unfold ofFloat
  dsimp only
  rw [if_pos (Binary.isFinite_of_integer? h), h]
  exact if_pos hn

end Json

end ReactiveView
