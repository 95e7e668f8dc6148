import FiberConn.Uuid
import Mathlib.Tactic.IntervalCases

set_option autoImplicit false

/-! # Proofs about UUIDs

Each part of the two conversions gets one lemma that says what its lanes are; shuffles with a
constant control are read off by evaluation, the rest is about one byte. -/

namespace FiberConn

namespace UUIDv4

/-! ## From bytes to text -/

/-- The `i`-th hexadecimal digit of a register's bytes, each byte's high digit first. -/
def nibble (x : M128i) (i : ℕ) : BitVec 8 :=
  if i % 2 = 0 then lane 8 x (i / 2) >>> 4 else lane 8 x (i / 2) &&& 0x0F#8

theorem nibble_even (x : M128i) (k : ℕ) :
    (nibble x (2 * k)).toNat = (lane 8 x k).toNat / 16 := by
  have heven : 2 * k % 2 = 0 := by omega
  have hhalf : 2 * k / 2 = k := by omega
  rw [nibble, heven, hhalf, if_pos rfl, BitVec.toNat_ushiftRight, Nat.shiftRight_eq_div_pow]

theorem nibble_odd (x : M128i) (k : ℕ) :
    (nibble x (2 * k + 1)).toNat = (lane 8 x k).toNat % 16 := by
  have hodd : (2 * k + 1) % 2 = 1 := by omega
  have hhalf : (2 * k + 1) / 2 = k := by omega
  rw [nibble, hodd, hhalf, if_neg (by decide), BitVec.toNat_and]
  exact Nat.and_two_pow_sub_one_eq_mod _ 4

theorem nibble_lt (x : M128i) (i : ℕ) : (nibble x i).toNat < 16 := by
  unfold nibble
  split
  · rw [BitVec.toNat_ushiftRight, Nat.shiftRight_eq_div_pow]
    omega
  · rw [BitVec.toNat_and]
    exact Nat.and_lt_two_pow (n := 4) _ (by decide)

theorem lane_set1 (b : BitVec 8) {i : ℕ} (hi : i < 32) : lane 8 (mm256Set1Epi8 b) i = b :=
  lane_ofLanes _ hi

theorem lane_add (x y : M256i) {i : ℕ} (hi : i < 32) :
    lane 8 (mm256AddEpi8 x y) i = lane 8 x i + lane 8 y i := lane_zipLanes _ _ _ hi

theorem lane_sub (x y : M256i) {i : ℕ} (hi : i < 32) :
    lane 8 (mm256SubEpi8 x y) i = lane 8 x i - lane 8 y i := lane_zipLanes _ _ _ hi

theorem lane_castsi128 (undefined x : M128i) {i : ℕ} (hi : i < 16) :
    lane 8 (mm256Castsi128 undefined x) i = lane 8 x i := by
  refine lane_ext fun b hb => ?_
  have hlow : 8 * i + b < 128 := by omega
  simp only [getLsbD_lane, mm256Castsi128, BitVec.getLsbD_append, hlow, if_true, hb, decide_true]

theorem lane_castsi256 (x : M256i) {i : ℕ} (hi : i < 16) :
    lane 8 (mm256Castsi256 x) i = lane 8 x i := by
  have h := lane_lane (v := 8) (k := 16) x 0 hi
  rwa [Nat.mul_zero, Nat.zero_add] at h

/-- A 4-bit shift of 64-bit lanes brings the high digit of every byte down. -/
theorem lane_srli_and (x : M256i) {i : ℕ} (hi : i < 32) :
    lane 8 (mm256SrliEpi64 x 4) i &&& 0x0F#8 = lane 8 x i >>> 4 := by
  refine lane_ext fun b hb => ?_
  rw [BitVec.getLsbD_and, BitVec.getLsbD_ushiftRight, getLsbD_lane (x := x)]
  rcases Nat.lt_or_ge b 4 with hlt | hge
  · have hmod : 8 * (i % 8) + b + 4 < 8 * 8 := by omega
    have hbit := getLsbD_lane_ushiftRight (v := 8) (k := 8) (by decide) x 4 hi hb hmod
    have hmask : (0x0F#8).getLsbD b = true := by interval_cases b <;> rfl
    have hin : 4 + b < 8 := by omega
    have hpos : 8 * i + b + 4 = 8 * i + (4 + b) := by omega
    rw [mm256SrliEpi64, hbit, hmask, hpos]
    simp [hin]
  · have hmask : (0x0F#8).getLsbD b = false := by interval_cases b <;> rfl
    have hout : ¬ 4 + b < 8 := by omega
    rw [hmask, Bool.and_false, decide_eq_false hout, Bool.false_and]

/-- Bits moved up by less than a byte within their 64-bit lane. -/
theorem getLsbD_lane_slli (x : M256i) {s i b : ℕ} (hi : i < 32) (hb : b < 8) (hs : s ≤ b) :
    (lane 8 (mm256SlliEpi64 x s) i).getLsbD b = (lane 8 x i).getLsbD (b - s) := by
  have hbit := getLsbD_lane_shiftLeft (v := 8) (k := 8) (by decide) x s (i := i) hi hb (by omega)
  have hin : b - s < 8 := by omega
  have hpos : 8 * i + b - s = 8 * i + (b - s) := by omega
  rw [mm256SlliEpi64, hbit, getLsbD_lane, hpos]
  simp [hin]

/-- The interleaved halves put together. -/
theorem lane_interleave (a b : M256i) {i : ℕ} (hi : i < 32) :
    lane 8 (mm256Inserti128 (mm256UnpackloEpi8 a b)
      (mm256Castsi256 (mm256UnpackhiEpi8 a b)) 1) i =
        lane 8 (if i % 2 = 0 then a else b) (i / 2) := by
  rw [mm256Inserti128, lane_ofLanes_mul (v := 8) (k := 16) (by decide) _ hi]
  rcases Nat.lt_or_ge i 16 with hlt | hge
  · have hhalf : i / 16 = 0 := by omega
    have hmod : i % 16 = i := by omega
    rw [hhalf, hmod, if_neg (by decide), lane_lane (v := 8) (k := 16) _ _ hlt, Nat.mul_zero,
      Nat.zero_add, mm256UnpackloEpi8, lane_ofLanes _ (by omega)]
    have hsrc : i / 16 * 16 + i % 16 / 2 = i / 2 := by omega
    rw [hsrc]
  · have hhalf : i / 16 = 1 := by omega
    rw [hhalf, if_pos rfl, lane_castsi256 _ (by omega), mm256UnpackhiEpi8,
      lane_ofLanes _ (by omega)]
    have hpar : i % 16 % 2 = i % 2 := by omega
    have hsrc : i % 16 / 16 * 16 + 8 + i % 16 % 16 / 2 = i / 2 := by omega
    rw [hpar, hsrc]

/-- The character of a digit, as the vector code computes it. -/
theorem hexDigit_eq : ∀ v : Fin 16, UInt8.ofBitVec (BitVec.ofNat 8 v +
    if (BitVec.ofNat 8 v + 0x06#8 &&& 0x10#8).getLsbD 4 then 0x57#8 else 0x30#8) = hexDigit v := by
  decide

/-- A digit below 10 gets the offset of the digits, a larger one that of the letters. -/
theorem lane_ascii (d : M256i) {i : ℕ} (hi : i < 32) :
    lane 8 (mm256AddEpi8 d (mm256BlendvEpi8 (mm256SlliEpi64 (mm256Set1Epi8 0x06#8) 3)
      (mm256Set1Epi8 0x57#8)
      (mm256SlliEpi64 (mm256AddEpi8 d (mm256Set1Epi8 0x06#8) &&& mm256Set1Epi8 0x10#8) 3))) i =
    lane 8 d i + if (lane 8 d i + 0x06#8 &&& 0x10#8).getLsbD 4 then 0x57#8 else 0x30#8 := by
  have hbase : lane 8 (mm256SlliEpi64 (mm256Set1Epi8 0x06#8) 3) i = 0x30#8 := by
    have hall : ∀ i < 32, lane 8 (mm256SlliEpi64 (mm256Set1Epi8 0x06#8) 3) i = 0x30#8 := by
      decide
    exact hall i hi
  have halpha := getLsbD_lane_slli (mm256AddEpi8 d (mm256Set1Epi8 0x06#8) &&& mm256Set1Epi8 0x10#8)
    (s := 3) (b := 7) hi (by decide) (by decide)
  rw [lane_and, lane_add _ _ hi, lane_set1 _ hi, lane_set1 _ hi] at halpha
  rw [lane_add _ _ hi, mm256BlendvEpi8, lane_ofLanes _ hi, halpha]
  split
  · rw [lane_set1 _ hi]
  · rw [hbase]

theorem lane_hexDigits (undefined x : M128i) {i : ℕ} (hi : i < 32) :
    UInt8.ofBitVec (lane 8 (hexDigits undefined x) i) = hexDigit (nibble x i).toNat := by
  have hv := hexDigit_eq ⟨_, nibble_lt x i⟩
  rw [BitVec.ofNat_toNat, BitVec.setWidth_eq] at hv
  rw [hexDigits, lane_ascii _ hi, ← hv, lane_and, lane_interleave _ _ hi, lane_set1 _ hi]
  have hd : lane 8 (if i % 2 = 0 then mm256SrliEpi64 (mm256Castsi128 undefined x) 4
      else mm256Castsi128 undefined x) (i / 2) &&& 0x0F#8 = nibble x i := by
    rw [nibble]
    split
    · rw [lane_srli_and _ (by omega), lane_castsi128 _ _ (by omega)]
    · rw [lane_castsi128 _ _ (by omega)]
  rw [hd]

/-! ## Where the characters go -/

theorem lane_shuffle (x control : M256i) {i : ℕ} (hi : i < 32) :
    lane 8 (mm256ShuffleEpi8 x control) i =
      if (lane 8 control i).getLsbD 7 then 0#8
      else lane 8 x (i / 16 * 16 + (lane 8 control i).toNat % 16) := lane_ofLanes _ hi

/-- What the first store writes in the place of a digit that the later ones do not write. -/
theorem itos_first_store : ∀ i < 32, i < 14 ∨ 16 ≤ i ∧ i < 28 →
    digitPlace i < 16 ∨ 18 ≤ digitPlace i ∧ digitPlace i < 32 := by
  decide

theorem itos_control : ∀ i < 32, i < 14 ∨ 16 ≤ i ∧ i < 28 →
    (lane 8 itosDashShuffle (digitPlace i)).getLsbD 7 = false ∧
    digitPlace i / 16 * 16 + (lane 8 itosDashShuffle (digitPlace i)).toNat % 16 = i ∧
    lane 8 itosDash (digitPlace i) = 0#8 := by
  decide

theorem itos_dashes : ∀ a ∈ [8, 13, 18, 23],
    (lane 8 itosDashShuffle a).getLsbD 7 = true ∧ lane 8 itosDash a = 0x2d#8 := by
  decide

/-- Behind the last dash the digits are four places on; between the second and the third, two. -/
theorem digitPlace_last {i : ℕ} (hi : 20 ≤ i) : digitPlace i = i + 4 := by
  have h8 : 8 ≤ i := by omega
  have h12 : 12 ≤ i := by omega
  have h16 : 16 ≤ i := by omega
  simp [digitPlace, h8, h12, h16, hi]

variable (undefined x : M128i) (mem : Memory)

/-- **Each digit is written in its place.** -/
theorem m128itos_digit {i : ℕ} (hi : i < 32) :
    m128itos undefined x mem (digitPlace i) = hexDigit (nibble x i).toNat := by
  rw [← lane_hexDigits undefined x hi, m128itos]
  by_cases hfirst : i < 14 ∨ 16 ≤ i ∧ i < 28
  · have hplace := itos_first_store i hi hfirst
    obtain ⟨hkeep, hsrc, hzero⟩ := itos_control i hi hfirst
    rw [Memory.store_elsewhere _ _ (by omega), Memory.store_elsewhere _ _ (by omega),
      Memory.store_here _ _ (Nat.zero_le _) (by omega), Nat.sub_zero, lane_or,
      lane_shuffle _ _ (by omega), hkeep, hzero, hsrc]
    simp
  by_cases hlast : 28 ≤ i
  · have hplace := digitPlace_last (i := i) (by omega)
    rw [hplace, Memory.store_here _ _ (by omega) (by omega), mm256ExtractEpi32,
      lane_lane (v := 8) (k := 4) _ _ (by omega)]
    have hsrc : 4 * 7 + (i + 4 - 32) = i := by omega
    rw [hsrc]
  · have hplace : digitPlace i = i + 2 := by
      obtain rfl | rfl : i = 14 ∨ i = 15 := by omega
      · rfl
      · rfl
    rw [hplace, Memory.store_elsewhere _ _ (by omega), Memory.store_here _ _ (by omega) (by omega),
      mm256ExtractEpi16, lane_lane (v := 8) (k := 2) _ _ (by omega)]
    have hsrc : 2 * 7 + (i + 2 - 16) = i := by omega
    rw [hsrc]

theorem m128itos_dash {a : ℕ} (ha : a ∈ [8, 13, 18, 23]) : m128itos undefined x mem a = dash := by
  obtain ⟨haway, hdash⟩ := itos_dashes a ha
  have hplace : a < 16 ∨ 18 ≤ a ∧ a < 32 := by
    revert a
    decide
  rw [m128itos, Memory.store_elsewhere _ _ (by omega), Memory.store_elsewhere _ _ (by omega),
    Memory.store_here _ _ (Nat.zero_le _) (by omega), Nat.sub_zero, lane_or,
    lane_shuffle _ _ (by omega), haway, hdash, if_pos rfl]
  rfl

/-- Nothing is written past the 36 characters. -/
theorem m128itos_beyond {a : ℕ} (ha : 36 ≤ a) : m128itos undefined x mem a = mem a := by
  rw [m128itos, Memory.store_elsewhere _ _ (by omega), Memory.store_elsewhere _ _ (by omega),
    Memory.store_elsewhere _ _ (by omega)]

/-! ## The whole text -/

/-- What stands at `a`, when the digits are `digit`. -/
def textAt (digit : ℕ → UInt8) (a : ℕ) : UInt8 :=
  if a ∈ [8, 13, 18, 23] then dash else digit (a - [8, 13, 18, 23].countP (· < a))

theorem digitPlace_lt {i : ℕ} (hi : i < 32) : digitPlace i < 36 := by
  have hall : ∀ i < 32, digitPlace i < 36 := by decide
  exact hall i hi

/-- Every place has a dash or a digit. -/
theorem eq_textAt {mem : Memory} {digit : ℕ → UInt8}
    (hdigit : ∀ i < 32, mem (digitPlace i) = digit i)
    (hdash : ∀ a ∈ [8, 13, 18, 23], mem a = dash) {a : ℕ} (ha : a < 36) :
    mem a = textAt digit a := by
  have hplaces : ∀ a < 36, a ∉ [8, 13, 18, 23] →
      a - [8, 13, 18, 23].countP (· < a) < 32 ∧
      digitPlace (a - [8, 13, 18, 23].countP (· < a)) = a := by
    decide
  by_cases hmem : a ∈ [8, 13, 18, 23]
  · rw [hdash a hmem, textAt, if_pos hmem]
  · obtain ⟨hlt, hplace⟩ := hplaces a ha hmem
    rw [textAt, if_neg hmem, ← hdigit _ hlt, hplace]

/-- The bytes of a UUID, in the order of memory. -/
theorem UUID.bytes_eq (u : UUID) :
    u.bytes = (List.range 16).map fun k => .ofBitVec (lane 8 u.data k) := by
  refine List.map_congr_left fun k hk => ?_
  have hk : k < 16 := List.mem_range.1 hk
  exact Memory.store_here _ _ (Nat.zero_le _) (by omega)

/-- The two digits of a byte. -/
theorem hexByte_eq (x : M128i) (k : ℕ) : hexByte (.ofBitVec (lane 8 x k)) =
    [hexDigit (nibble x (2 * k)).toNat, hexDigit (nibble x (2 * k + 1)).toNat] := by
  rw [nibble_even, nibble_odd]
  rfl

/-- The text form, place by place. -/
theorem UUID.canonical_eq (u : UUID) :
    u.canonical = (List.range 36).map (textAt fun i => hexDigit (nibble u.data i).toNat) := by
  rw [UUID.canonical, u.bytes_eq]
  simp only [List.range_succ, List.range_zero, List.nil_append, List.cons_append, List.map_cons,
    List.map_nil, List.drop_succ_cons, List.drop_zero, List.take_succ_cons, List.take_zero,
    List.flatMap_cons, List.flatMap_nil, hexByte_eq]
  rfl

/-- **`str` writes the text form** of RFC 4122: lower-case digits of the bytes in the order of
    memory, in groups of 8-4-4-4-12, whatever the undefined half of the wide register holds. -/
theorem UUID.str_eq_canonical (undefined : M128i) (u : UUID) : u.str undefined = u.canonical := by
  rw [u.canonical_eq]
  refine List.map_congr_left fun a ha => ?_
  exact eq_textAt (fun i hi => m128itos_digit undefined u.data _ hi)
    (fun a ha => m128itos_dash undefined u.data _ ha) (List.mem_range.1 ha)

/-! ## From text to bytes -/

theorem stoi_control : ∀ i < 32, i < 14 ∨ 16 ≤ i ∧ i < 28 →
    (lane 8 stoiDashShuffle i).getLsbD 7 = false ∧
    i / 16 * 16 + (lane 8 stoiDashShuffle i).toNat % 16 = digitPlace i := by
  decide

/-- The digits without the dashes. -/
theorem lane_packDigits {i : ℕ} (hi : i < 32) :
    lane 8 (packDigits mem) i = (mem (digitPlace i)).toBitVec := by
  rw [packDigits, mm256InsertEpi32, lane_ofLanes_mul (v := 8) (k := 4) (by decide) _ hi]
  by_cases hlast : 28 ≤ i
  · have hq : i / 4 = 7 := by omega
    have hplace := digitPlace_last (i := i) (by omega)
    have hsrc : 32 + i % 4 = i + 4 := by omega
    rw [hq, if_pos rfl, Memory.lane_load _ _ (by omega), hplace, hsrc]
  have hq : i / 4 ≠ 7 := by omega
  rw [if_neg hq, lane_lane (v := 8) (k := 4) _ _ (by omega), Nat.div_add_mod, mm256InsertEpi16,
    lane_ofLanes_mul (v := 8) (k := 2) (by decide) _ hi]
  by_cases hmid : i / 2 = 7
  · rw [hmid, if_pos rfl, Memory.lane_load _ _ (by omega)]
    obtain rfl | rfl : i = 14 ∨ i = 15 := by omega
    · rfl
    · rfl
  · obtain ⟨hkeep, hsrc⟩ := stoi_control i hi (by omega)
    rw [if_neg hmid, lane_lane (v := 8) (k := 2) _ _ (by omega), Nat.div_add_mod,
      lane_shuffle _ _ hi, if_neg (by rw [hkeep]; decide), hsrc,
      Memory.lane_load _ _ (hsrc ▸ by omega), Nat.zero_add]

/-- What the vector code takes the character `c` for. -/
def digitValue (c : UInt8) : BitVec 8 :=
  let a := c.toBitVec - 0x2F#8
  a - if (a &&& 0x20#8).getLsbD 5 then 0x28#8 else 0x01#8

theorem lane_digitValues (x : M256i) {i : ℕ} (hi : i < 32) :
    lane 8 (digitValues x) i = digitValue (.ofBitVec (lane 8 x i)) := by
  have halpha := getLsbD_lane_slli
    (mm256SubEpi8 x (mm256Set1Epi8 0x2F#8) &&& mm256Set1Epi8 0x20#8) (s := 2) (b := 7) hi
    (by decide) (by decide)
  rw [lane_and, lane_sub _ _ hi, lane_set1 _ hi, lane_set1 _ hi] at halpha
  rw [digitValues, lane_sub _ _ hi, lane_sub _ _ hi, lane_set1 _ hi, mm256BlendvEpi8,
    lane_ofLanes _ hi, halpha, digitValue]
  split <;> rw [lane_set1 _ hi]

set_option maxRecDepth 2000 in
/-- Digits and lower-case letters have their value; an upper-case letter has 7 too much, since it
    does not have the bit that tells letters from digits. -/
theorem digitValue_eq {c : UInt8} {v : ℕ} (h : hexValue c = some v) :
    v < 16 ∧ (digitValue c).toNat = v + if 0x41 ≤ c ∧ c ≤ 0x46 then 7 else 0 := by
  have hall : ∀ n : Fin 256, ∀ v ∈ hexValue (.ofNat n), v < 16 ∧ (digitValue (.ofNat n)).toNat =
      v + if 0x41 ≤ UInt8.ofNat n ∧ UInt8.ofNat n ≤ 0x46 then 7 else 0 := by
    decide
  have hc := hall ⟨c.toNat, c.toNat_lt⟩
  rw [UInt8.ofNat_toNat] at hc
  exact hc v h

/-- The even digits of a byte group go to one 32-bit lane, the odd ones to the next. -/
theorem unweave_control : ∀ i < 32, (lane 8 unweave i).getLsbD 7 = false ∧
    i / 16 * 16 + (lane 8 unweave i).toNat % 16 = i / 8 * 8 + i / 4 % 2 + i % 4 * 2 := by
  decide

theorem lane_shift : ∀ q < 8, (lane 32 shift q).toNat = if q % 2 = 0 then 4 else 0 := by
  decide

/-- The bytes of a 32-bit number. -/
theorem toNat_bytes (x : BitVec 32) : x.toNat = (lane 8 x 0).toNat + 256 * (lane 8 x 1).toNat +
    65536 * (lane 8 x 2).toNat + 16777216 * (lane 8 x 3).toNat := by
  have hx := x.isLt
  simp only [lane, BitVec.extractLsb'_toNat, Nat.shiftRight_eq_div_pow]
  omega

/-- The digits of the `o`-th group of four bytes, each pair as one number. -/
def pairSum (value : ℕ → ℕ) (o : ℕ) : ℕ :=
  (16 * value (8 * o) + value (8 * o + 1)) + 256 * (16 * value (8 * o + 2) + value (8 * o + 3)) +
    65536 * (16 * value (8 * o + 4) + value (8 * o + 5)) +
    16777216 * (16 * value (8 * o + 6) + value (8 * o + 7))

theorem lane_unweave {i : ℕ} (hi : i < 32) :
    lane 8 (mm256ShuffleEpi8 (digitValues (packDigits mem)) unweave) i =
      digitValue (mem (digitPlace (i / 8 * 8 + i / 4 % 2 + i % 4 * 2))) := by
  obtain ⟨hkeep, hsrc⟩ := unweave_control i hi
  have hlt : i / 8 * 8 + i / 4 % 2 + i % 4 * 2 < 32 := by omega
  rw [lane_shuffle _ _ hi, if_neg (by rw [hkeep]; decide), hsrc, lane_digitValues _ hlt,
    lane_packDigits _ hlt]

/-- The sums of neighbours, gathered in the lower half. -/
theorem lane_permute_hadd (x : M256i) {o : ℕ} (ho : o < 4) :
    lane 32 (mm256Castsi256 (mm256Permute4x64 (mm256HaddEpi32 x 0#256) 0b00001000)) o =
      lane 32 x (2 * o) + lane 32 x (2 * o + 1) := by
  have hsrc : ∀ o < 4, 2 * (0b00001000 / 4 ^ (o / 2) % 4) + o % 2 = o / 2 * 4 + o % 2 := by decide
  have hfirst : (o / 2 * 4 + o % 2) / 4 * 4 + (o / 2 * 4 + o % 2) % 2 * 2 = 2 * o := by omega
  have hlow : (o / 2 * 4 + o % 2) % 4 < 2 := by omega
  rw [mm256Castsi256, lane_lane (v := 32) (k := 4) _ _ ho, Nat.mul_zero, Nat.zero_add,
    mm256Permute4x64, lane_ofLanes_mul (v := 32) (k := 2) (by decide) _ (by omega),
    lane_lane (v := 32) (k := 2) _ _ (by omega), hsrc o ho, mm256HaddEpi32,
    lane_ofLanes _ (by omega)]
  dsimp only
  rw [if_pos hlow, hfirst]

/-- **What `stom128i` computes**, four bytes at a time, from any 36 characters. -/
theorem lane_stom128i {o : ℕ} (ho : o < 4) : (lane 32 (stom128i mem) o).toNat =
    pairSum (fun i => (digitValue (mem (digitPlace i))).toNat) o % 2 ^ 32 := by
  have hhigh {r : ℕ} (hr : r < 4) :
      lane 8 (lane 32 (mm256ShuffleEpi8 (digitValues (packDigits mem)) unweave) (2 * o)) r =
        digitValue (mem (digitPlace (8 * o + 2 * r))) := by
    have hplace : (4 * (2 * o) + r) / 8 * 8 + (4 * (2 * o) + r) / 4 % 2 +
        (4 * (2 * o) + r) % 4 * 2 = 8 * o + 2 * r := by omega
    rw [lane_lane (v := 8) (k := 4) _ _ hr, lane_unweave _ (by omega), hplace]
  have hlow {r : ℕ} (hr : r < 4) :
      lane 8 (lane 32 (mm256ShuffleEpi8 (digitValues (packDigits mem)) unweave) (2 * o + 1)) r =
        digitValue (mem (digitPlace (8 * o + (2 * r + 1)))) := by
    have hplace : (4 * (2 * o + 1) + r) / 8 * 8 + (4 * (2 * o + 1) + r) / 4 % 2 +
        (4 * (2 * o + 1) + r) % 4 * 2 = 8 * o + (2 * r + 1) := by omega
    rw [lane_lane (v := 8) (k := 4) _ _ hr, lane_unweave _ (by omega), hplace]
  have heven : 2 * o % 2 = 0 := by omega
  rw [stom128i, lane_permute_hadd _ ho, mm256SllvEpi32, lane_zipLanes _ _ _ (by omega),
    lane_zipLanes _ _ _ (by omega), lane_shift _ (by omega), lane_shift _ (by omega),
    if_pos heven, if_neg (by omega), BitVec.shiftLeft_zero, BitVec.toNat_add,
    BitVec.toNat_shiftLeft, Nat.shiftLeft_eq, toNat_bytes, toNat_bytes (lane 32 _ (2 * o + 1)),
    hhigh (r := 0) (by decide), hhigh (r := 1) (by decide), hhigh (r := 2) (by decide),
    hhigh (r := 3) (by decide), hlow (r := 0) (by decide), hlow (r := 1) (by decide),
    hlow (r := 2) (by decide), hlow (r := 3) (by decide)]
  simp only [pairSum, Nat.mul_zero, Nat.add_zero, Nat.zero_add, Nat.reduceMul, Nat.reduceAdd]
  omega

theorem pairSum_add (f g : ℕ → ℕ) (o : ℕ) :
    pairSum (fun i => f i + g i) o = pairSum f o + pairSum g o := by
  simp only [pairSum]
  omega

/-- Digits below 16 make four bytes. -/
theorem pairSum_lt {value : ℕ → ℕ} (h : ∀ i < 32, value i < 16) {o : ℕ} (ho : o < 4) :
    pairSum value o < 2 ^ 32 := by
  have hi (r : ℕ) (hr : r < 8) : value (8 * o + r) < 16 := h _ (by omega)
  have h0 := hi 0 (by decide)
  have h1 := hi 1 (by decide)
  have h2 := hi 2 (by decide)
  have h3 := hi 3 (by decide)
  have h4 := hi 4 (by decide)
  have h5 := hi 5 (by decide)
  have h6 := hi 6 (by decide)
  have h7 := hi 7 (by decide)
  rw [Nat.add_zero] at h0
  simp only [pairSum]
  omega

/-- The sum is only zero if every digit is. -/
theorem pairSum_eq_zero_iff {value : ℕ → ℕ} :
    (∀ o < 4, pairSum value o = 0) ↔ ∀ i < 32, value i = 0 := by
  constructor
  · intro h i hi
    have ho := h (i / 8) (by omega)
    simp only [pairSum] at ho
    have hzero : ∀ r < 8, value (8 * (i / 8) + r) = 0 := by
      intro r hr
      interval_cases r <;> first | omega | rw [Nat.add_zero]; omega
    have hlast := hzero (i % 8) (Nat.mod_lt i (by decide))
    rwa [Nat.div_add_mod] at hlast
  · intro h o ho
    have hz (r : ℕ) (hr : r < 8) : value (8 * o + r) = 0 := h _ (by omega)
    have h0 := hz 0 (by decide)
    rw [Nat.add_zero] at h0
    simp [pairSum, h0, hz]

/-- What `parse` accepts, and the bytes it gives. -/
theorem UUID.parse_eq_some {raw : Memory} {u : UUID} (h : UUID.parse raw = some u) :
    ∃ value : ℕ → ℕ, (∀ i < 32, hexValue (raw (digitPlace i)) = some (value i)) ∧
      ∀ o < 4, (lane 32 u.data o).toNat = pairSum value o := by
  obtain ⟨hall, hu⟩ := Option.ite_none_right_eq_some.1 h
  obtain rfl := Option.some.inj hu
  let value (i : ℕ) : ℕ := (hexValue (raw (digitPlace i))).getD 0
  have hvalue (i : ℕ) (hi : i < 32) : hexValue (raw (digitPlace i)) = some (value i) := by
    obtain ⟨v, hv⟩ := Option.isSome_iff_exists.1 (hall i hi)
    simp only [value, hv, Option.getD_some]
  refine ⟨value, hvalue, fun o ho => ?_⟩
  have hbyte {r : ℕ} (hr : r < 4) :
      (lane 8 (lane 32 (ofLanes 128 8 fun k =>
        BitVec.ofNat 8 (16 * value (2 * k) + value (2 * k + 1))) o) r).toNat =
      16 * value (8 * o + 2 * r) + value (8 * o + 2 * r + 1) := by
    have hhigh := (digitValue_eq (hvalue (8 * o + 2 * r) (by omega))).1
    have hlow := (digitValue_eq (hvalue (8 * o + 2 * r + 1) (by omega))).1
    have hplace : 2 * (4 * o + r) = 8 * o + 2 * r := by omega
    rw [lane_lane (v := 8) (k := 4) _ _ hr, lane_ofLanes _ (by omega), BitVec.toNat_ofNat, hplace,
      Nat.mod_eq_of_lt (by omega)]
  rw [toNat_bytes, hbyte (r := 0) (by decide), hbyte (r := 1) (by decide),
    hbyte (r := 2) (by decide), hbyte (r := 3) (by decide)]
  rfl

/-- **What `fromStr` understands.** Of the texts with a hexadecimal digit in each of the 32 places,
    it gives the bytes of exactly those in which no letter is upper case. -/
theorem UUID.fromStr_eq_iff {raw : Memory} {u : UUID} (h : UUID.parse raw = some u) :
    UUID.fromStr raw = u ↔ ∀ i < 32, ¬ UpperDigit (raw (digitPlace i)) := by
  obtain ⟨value, hvalue, hbytes⟩ := UUID.parse_eq_some h
  let excess (i : ℕ) : ℕ :=
    if 0x41 ≤ raw (digitPlace i) ∧ raw (digitPlace i) ≤ 0x46 then 7 else 0
  have hread (o : ℕ) (ho : o < 4) : (lane 32 (stom128i raw) o).toNat =
      (pairSum value o + pairSum excess o) % 2 ^ 32 := by
    have hsum : pairSum (fun i => (digitValue (raw (digitPlace i))).toNat) o =
        pairSum (fun i => value i + excess i) o := by
      have hi (r : ℕ) (hr : r < 8) := (digitValue_eq (hvalue (8 * o + r) (by omega))).2
      have h0 := hi 0 (by decide)
      rw [Nat.add_zero] at h0
      simp only [pairSum, h0, hi 1 (by decide), hi 2 (by decide), hi 3 (by decide),
        hi 4 (by decide), hi 5 (by decide), hi 6 (by decide), hi 7 (by decide), excess]
    rw [lane_stom128i raw ho, hsum, pairSum_add]
  have hsmall (o : ℕ) (ho : o < 4) : pairSum value o < 2 ^ 32 ∧ pairSum excess o < 2 ^ 32 := by
    refine ⟨pairSum_lt (fun i hi => (digitValue_eq (hvalue i hi)).1) ho, pairSum_lt ?_ ho⟩
    intro i _
    simp only [excess]
    split <;> decide
  have hequal : UUID.fromStr raw = u ↔ ∀ o < 4, pairSum excess o = 0 := by
    constructor
    · rintro rfl o ho
      have hsame := (hread o ho).symm.trans (hbytes o ho)
      have hlt := hsmall o ho
      omega
    · intro hzero
      have hdata : stom128i raw = u.data := by
        refine eq_of_lanes (w := 32) (by decide) (by decide) fun o ho => BitVec.eq_of_toNat_eq ?_
        rw [hread o ho, hbytes o ho, hzero o ho, Nat.add_zero, Nat.mod_eq_of_lt (hsmall o ho).1]
      exact congrArg UUID.mk hdata
  rw [hequal, pairSum_eq_zero_iff]
  refine forall₂_congr fun i _ => ?_
  simp only [excess, UpperDigit]
  split <;> simp [*]

/-- "00112233-4455-4677-8899-AABBCCDDEEFF", with the last six letters in upper case. -/
def upperText : Bytes := "00112233-4455-4677-8899-AABBCCDDEEFF".toList.map fun c => .ofNat c.toNat

/-- The UUID it spells. -/
def upperUuid : UUID := ⟨0xffeeddccbbaa99887746554433221100#128⟩

/-- An upper-case text is not understood. -/
theorem UUID.fromStr_upper : UUID.parse (cString upperText fun _ => 0) = some upperUuid ∧
    UUID.fromStr (cString upperText fun _ => 0) ≠ upperUuid := by
  have hparse : UUID.parse (cString upperText fun _ => 0) = some upperUuid := by decide
  refine ⟨hparse, fun h => ?_⟩
  have hupper := (UUID.fromStr_eq_iff hparse).1 h 31 (by decide)
  revert hupper
  unfold UpperDigit
  decide

/-! ## Round trips -/

theorem hexValue_hexDigit {v : ℕ} (hv : v < 16) :
    hexValue (hexDigit v) = some v ∧ ¬ UpperDigit (hexDigit v) := by
  have hall : ∀ v : Fin 16, hexValue (hexDigit v) = some v.val ∧
      ¬ (0x41 ≤ hexDigit v ∧ hexDigit v ≤ 0x46) := by
    decide
  exact hall ⟨v, hv⟩

/-- A byte is its two digits. -/
theorem nibble_pair (x : M128i) (k : ℕ) :
    16 * (nibble x (2 * k)).toNat + (nibble x (2 * k + 1)).toNat = (lane 8 x k).toNat := by
  rw [nibble_even, nibble_odd]
  exact Nat.div_add_mod _ 16

/-- The digits of a UUID in their places spell it. -/
theorem UUID.parse_digits {raw : Memory} {u : UUID}
    (h : ∀ i < 32, raw (digitPlace i) = hexDigit (nibble u.data i).toNat) :
    UUID.parse raw = some u := by
  have hvalue (i : ℕ) (hi : i < 32) :
      hexValue (raw (digitPlace i)) = some (nibble u.data i).toNat := by
    rw [h i hi, (hexValue_hexDigit (nibble_lt u.data i)).1]
  rw [UUID.parse, if_pos fun i hi => Option.isSome_iff_exists.2 ⟨_, hvalue i hi⟩]
  have hdata : (ofLanes 128 8 fun k => BitVec.ofNat 8
      (16 * (hexValue (raw (digitPlace (2 * k)))).getD 0 +
        (hexValue (raw (digitPlace (2 * k + 1)))).getD 0)) = u.data := by
    refine eq_of_lanes (w := 8) (by decide) (by decide) fun k hk => ?_
    rw [lane_ofLanes _ hk, hvalue _ (by omega), hvalue _ (by omega), Option.getD_some,
      Option.getD_some, nibble_pair, BitVec.ofNat_toNat, BitVec.setWidth_eq]
  rw [hdata]

theorem UUID.fromStr_digits {raw : Memory} {u : UUID}
    (h : ∀ i < 32, raw (digitPlace i) = hexDigit (nibble u.data i).toNat) :
    UUID.fromStr raw = u := by
  refine (UUID.fromStr_eq_iff (UUID.parse_digits h)).2 fun i hi => ?_
  rw [h i hi]
  exact (hexValue_hexDigit (nibble_lt u.data i)).2

theorem UUID.length_str (undefined : M128i) (u : UUID) : (u.str undefined).length = 36 := by
  simp [UUID.str, UUID.written]

/-- The characters of `str`, followed by anything. -/
theorem UUID.cString_str (undefined : M128i) (u : UUID) (beyond : Memory) {i : ℕ} (hi : i < 32) :
    cString (u.str undefined) beyond (digitPlace i) = hexDigit (nibble u.data i).toNat := by
  have hplace := digitPlace_lt hi
  have hlen : digitPlace i < (u.str undefined).length := by rwa [u.length_str]
  rw [cString, dif_pos hlen]
  simp only [UUID.str, UUID.written, List.getElem_map, List.getElem_range]
  exact m128itos_digit undefined u.data _ hi

/-- **`fromStr` undoes `str`.** -/
theorem UUID.fromStr_str (undefined : M128i) (u : UUID) (beyond : Memory) :
    UUID.fromStr (cString (u.str undefined) beyond) = u :=
  UUID.fromStr_digits fun _ hi => u.cString_str undefined beyond hi

theorem isSpace_hexDigit {v : ℕ} (hv : v < 16) : UUID.isSpace (hexDigit v) = false := by
  have hall : ∀ v : Fin 16, UUID.isSpace (hexDigit v) = false := by decide
  exact hall ⟨v, hv⟩

/-- The text form is one word. -/
theorem UUID.not_isSpace_str (undefined : M128i) (u : UUID) :
    ∀ c ∈ u.str undefined, UUID.isSpace c = false := by
  rw [u.str_eq_canonical, u.canonical_eq]
  intro c hc
  obtain ⟨a, -, rfl⟩ := List.mem_map.1 hc
  rw [textAt]
  split
  · rfl
  · exact isSpace_hexDigit (nibble_lt _ _)

/-- **`operator>>` reads what `operator<<` wrote**, between blanks or the ends of the stream. -/
theorem UUID.read_str (undefined : M128i) (u : UUID) (beyond : Memory) {before after : Bytes}
    (hbefore : ∀ c ∈ before, UUID.isSpace c) (hafter : ∀ c ∈ after.head?, UUID.isSpace c) :
    UUID.read (before ++ (u.str undefined ++ after)) beyond = (u, after) := by
  have hword := u.not_isSpace_str undefined
  have hskip : (before ++ (u.str undefined ++ after)).dropWhile UUID.isSpace =
      u.str undefined ++ after := by
    rw [List.dropWhile_append_of_pos hbefore]
    cases hs : u.str undefined with
    | nil => exact absurd (hs ▸ u.length_str undefined) (by decide)
    | cons c cs =>
        have hc : UUID.isSpace c = false := hword c (hs ▸ List.mem_cons_self)
        simp [hc]
  have hstop : after.takeWhile (!UUID.isSpace ·) = [] ∧
      after.dropWhile (!UUID.isSpace ·) = after := by
    cases after with
    | nil => exact ⟨rfl, rfl⟩
    | cons c cs =>
        have hc : UUID.isSpace c = true := hafter c rfl
        simp [hc]
  have hall : ∀ c ∈ u.str undefined, (!UUID.isSpace c) = true := fun c hc => by simp [hword c hc]
  rw [UUID.read, hskip, List.takeWhile_append_of_pos hall, List.dropWhile_append_of_pos hall,
    hstop.1, hstop.2, List.append_nil, u.fromStr_str]

/-- Between a blank and a line end. -/
theorem UUID.read_str_upper :
    UUID.read ([0x20] ++ (upperUuid.str 0#128 ++ [0x0a])) (fun _ => 7) = (upperUuid, [0x0a]) :=
  upperUuid.read_str 0#128 (fun _ => 7) (fun c hc => by rw [List.mem_singleton.1 hc]; rfl)
    fun c hc => by rw [← Option.some.inj hc]; rfl

/-! ## The name of a connection -/

/-- A UUID is made again from its bytes. -/
theorem UUID.ofBytes_bytes (u : UUID) (beyond : Memory) :
    UUID.ofBytes (cString u.bytes beyond) = u := by
  have hdata : (cString u.bytes beyond).load 128 0 = u.data := by
    refine eq_of_lanes (w := 8) (by decide) (by decide) fun k hk => ?_
    have hk' : 0 + k < u.bytes.length := by
      rw [u.bytes_eq, List.length_map, List.length_range, Nat.zero_add]
      exact hk
    rw [Memory.lane_load _ _ hk, cString, dif_pos hk']
    simp [u.bytes_eq]
  exact congrArg UUID.mk hdata

set_option maxRecDepth 2000 in
/-- Two UUIDs give two names. -/
theorem UUID.connectionId_injective : Function.Injective UUID.connectionId := by
  intro u v h
  have hchars : u.bytes.map (fun b => Char.ofNat b.toNat) =
      v.bytes.map fun b => Char.ofNat b.toNat := by
    have hlists := congrArg String.toList h
    rwa [UUID.connectionId, UUID.connectionId, String.toList_ofList, String.toList_ofList]
      at hlists
  have hchar : Function.Injective fun b : UInt8 => Char.ofNat b.toNat := by
    intro a b hab
    have hall : ∀ n : Fin 256, (Char.ofNat n).toNat = n := by decide
    have ha := hall ⟨a.toNat, a.toNat_lt⟩
    have hb := hall ⟨b.toNat, b.toNat_lt⟩
    have hab : Char.ofNat a.toNat = Char.ofNat b.toNat := hab
    exact UInt8.toNat_inj.1 (ha.symm.trans ((congrArg Char.toNat hab).trans hb))
  have hbytes : u.bytes = v.bytes := List.map_injective_iff.2 hchar hchars
  rw [← u.ofBytes_bytes fun _ => 0, hbytes, v.ofBytes_bytes]

theorem UUID.length_connectionId (u : UUID) : u.connectionId.length = 16 := by
  simp [UUID.connectionId, u.bytes_eq]

/-! ## The generator -/

/-- Version and variant are the six bits that `getUUID` does not take from the generator. -/
theorem UUID.isRandom_iff (u : UUID) : u.IsRandom ↔
    ∀ j < 128, andMask.getLsbD j = false → u.data.getLsbD j = orMask.getLsbD j := by
  have hfixed : ∀ j < 128, andMask.getLsbD j = false → 52 ≤ j ∧ j < 56 ∨ 70 ≤ j ∧ j < 72 := by
    decide
  have hversion : ∀ b < 4, andMask.getLsbD (4 * 13 + b) = false ∧
      orMask.getLsbD (4 * 13 + b) = (4#4).getLsbD b := by
    decide
  have hvariant : ∀ b < 2, andMask.getLsbD (2 * 35 + b) = false ∧
      orMask.getLsbD (2 * 35 + b) = (2#2).getLsbD b := by
    decide
  constructor
  · rintro ⟨h4, h2⟩ j hj hmask
    obtain ⟨hle, hlt⟩ | ⟨hle, hlt⟩ := hfixed j hj hmask
    · obtain ⟨b, rfl⟩ := Nat.exists_eq_add_of_le hle
      have hb : b < 4 := by omega
      have hbit := congrArg (fun v : BitVec 4 => v.getLsbD b) h4
      simp only [getLsbD_lane, hb, decide_true, Bool.true_and] at hbit
      exact hbit.trans (hversion b hb).2.symm
    · obtain ⟨b, rfl⟩ := Nat.exists_eq_add_of_le hle
      have hb : b < 2 := by omega
      have hbit := congrArg (fun v : BitVec 2 => v.getLsbD b) h2
      simp only [getLsbD_lane, hb, decide_true, Bool.true_and] at hbit
      exact hbit.trans (hvariant b hb).2.symm
  · intro h
    refine ⟨lane_ext fun b hb => ?_, lane_ext fun b hb => ?_⟩
    · simp only [getLsbD_lane, hb, decide_true, Bool.true_and]
      exact (h _ (by omega) (hversion b hb).1).trans (hversion b hb).2
    · simp only [getLsbD_lane, hb, decide_true, Bool.true_and]
      exact (h _ (by omega) (hvariant b hb).1).trans (hvariant b hb).2

theorem getLsbD_getUUID (first second : BitVec 64) (j : ℕ) :
    (getUUID first second).data.getLsbD j =
      ((first ++ second).getLsbD j && andMask.getLsbD j || orMask.getLsbD j) := by
  simp only [getUUID, mmSetEpi64x, BitVec.getLsbD_or, BitVec.getLsbD_and]

theorem getUUID_isRandom (first second : BitVec 64) : (getUUID first second).IsRandom := by
  refine (UUID.isRandom_iff _).2 fun j _ hmask => ?_
  rw [getLsbD_getUUID, hmask, Bool.and_false, Bool.false_or]

/-- The draws that give a version 4 UUID are those with its bits where `and_mask` has a one. -/
theorem getUUID_eq_iff {u : UUID} (hu : u.IsRandom) (first second : BitVec 64) :
    getUUID first second = u ↔
      AgreesOn andMask (fun j => u.data.getLsbD j) (mmSetEpi64x first second) := by
  have hdisjoint : ∀ j < 128, andMask.getLsbD j = true → orMask.getLsbD j = false := by
    decide
  constructor
  · rintro rfl j hmask
    dsimp only
    rw [getLsbD_getUUID, hmask, hdisjoint j j.isLt hmask, Bool.and_true, Bool.or_false]
    rfl
  · intro h
    have hdata : (getUUID first second).data = u.data := by
      refine BitVec.eq_of_getLsbD_eq fun j hj => ?_
      rw [getLsbD_getUUID]
      cases hmask : andMask.getLsbD j with
      | true =>
          rw [hdisjoint j hj hmask, Bool.and_true, Bool.or_false]
          exact h ⟨j, hj⟩ hmask
      | false =>
          rw [Bool.and_false, Bool.false_or]
          exact ((UUID.isRandom_iff u).1 hu j hj hmask).symm
    exact congrArg UUID.mk hdata

theorem mmSetEpi64x_injective :
    Function.Injective fun d : BitVec 64 × BitVec 64 => mmSetEpi64x d.1 d.2 := by
  intro d e h
  have hbit (j : ℕ) : (d.1 ++ d.2).getLsbD j = (e.1 ++ e.2).getLsbD j :=
    congrArg (fun x : M128i => x.getLsbD j) h
  simp only [BitVec.getLsbD_append] at hbit
  refine Prod.ext (BitVec.eq_of_getLsbD_eq fun j hj => ?_) (BitVec.eq_of_getLsbD_eq fun j hj => ?_)
  · have hhigh := hbit (64 + j)
    rwa [if_neg (by omega), if_neg (by omega), Nat.add_sub_cancel_left] at hhigh
  · have hlow := hbit j
    rwa [if_pos hj, if_pos hj] at hlow

theorem mmSetEpi64x_surjective (x : M128i) : ∃ first second, mmSetEpi64x first second = x := by
  refine ⟨lane 64 x 1, lane 64 x 0, BitVec.eq_of_getLsbD_eq fun j hj => ?_⟩
  rw [mmSetEpi64x, BitVec.getLsbD_append, getLsbD_lane, getLsbD_lane]
  split
  · next h => rw [decide_eq_true h, Nat.mul_zero, Nat.zero_add, Bool.true_and]
  · next h =>
      have hin : j - 64 < 64 := by omega
      have hpos : 64 * 1 + (j - 64) = j := by omega
      rw [decide_eq_true hin, hpos, Bool.true_and]

/-- **The generator is uniform.** Of the `2 ^ 128` pairs that can be drawn, exactly 64 give each
    UUID of version 4 and variant 1, and none gives any other. -/
theorem getUUID_uniform (u : UUID) :
    {d : BitVec 64 × BitVec 64 | getUUID d.1 d.2 = u}.ncard = if u.IsRandom then 64 else 0 := by
  split
  · next hu =>
      have himage : (fun d : BitVec 64 × BitVec 64 => mmSetEpi64x d.1 d.2) ''
          {d | getUUID d.1 d.2 = u} = {x | AgreesOn andMask (fun j => u.data.getLsbD j) x} := by
        ext x
        constructor
        · rintro ⟨d, hd, rfl⟩
          exact (getUUID_eq_iff hu d.1 d.2).1 hd
        · intro hx
          obtain ⟨first, second, rfl⟩ := mmSetEpi64x_surjective x
          exact ⟨(first, second), (getUUID_eq_iff hu first second).2 hx, rfl⟩
      have hfree : (Finset.univ.filter fun j : Fin 128 => andMask.getLsbD j = false).card = 6 := by
        decide
      rw [← Set.ncard_image_of_injective _ mmSetEpi64x_injective, himage, ncard_agreesOn, hfree]
      rfl
  · next hu =>
      have hnone : {d : BitVec 64 × BitVec 64 | getUUID d.1 d.2 = u} = ∅ := by
        refine Set.eq_empty_of_forall_notMem fun d hd => hu ?_
        exact hd ▸ getUUID_isRandom d.1 d.2
      rw [hnone, Set.ncard_empty]

end UUIDv4

end FiberConn
