import Mathlib.Data.Fintype.BigOperators
import Mathlib.Data.Set.Card
import Mathlib.Tactic.Ring

set_option autoImplicit false

/-! # Registers and their lanes

A vector register is a `BitVec`, and `lane w x i` is its `i`-th lane of width `w`, counted from the
low end. Most vector instructions are lanewise: `mapLanes` and `zipLanes` apply a function to each
lane, `ofLanes` builds a register from its lanes. The same register is read at one width after it
has been written at another; `lane_lane` and `lane_ofLanes_mul` change the width, and where an
instruction moves bits across narrow lanes, `getLsbD_lane` says which bit is which.

`Memory` is what a pointer points to, as a function of the offset. -/

namespace FiberConn

variable {n : ℕ}

/-- Lane `i` of width `w`. -/
def lane (w : ℕ) (x : BitVec n) (i : ℕ) : BitVec w := x.extractLsb' (w * i) w

/-- The first `k` lanes of width `w` put together. -/
def gather (n w : ℕ) (f : ℕ → BitVec w) : ℕ → BitVec n
  | 0 => 0#n
  | k + 1 => gather n w f k ||| (f k).setWidth n <<< (w * k)

/-- The register of width `n` with the lanes `f`. -/
def ofLanes (n w : ℕ) (f : ℕ → BitVec w) : BitVec n := gather n w f (n / w)

def mapLanes (w : ℕ) (g : BitVec w → BitVec w) (x : BitVec n) : BitVec n :=
  ofLanes n w fun i => g (lane w x i)

def zipLanes (w : ℕ) (g : BitVec w → BitVec w → BitVec w) (x y : BitVec n) : BitVec n :=
  ofLanes n w fun i => g (lane w x i) (lane w y i)

/-! ## Reading lanes -/

theorem getLsbD_lane {w : ℕ} (x : BitVec n) (i j : ℕ) :
    (lane w x i).getLsbD j = (decide (j < w) && x.getLsbD (w * i + j)) :=
  BitVec.getLsbD_extractLsb' ..

/-- A lane is determined by the bits it covers. -/
theorem lane_ext {w : ℕ} {x y : BitVec w} (h : ∀ j < w, x.getLsbD j = y.getLsbD j) : x = y :=
  BitVec.eq_of_getLsbD_eq h

/-- A narrow lane of a wide lane. -/
theorem lane_lane {v k : ℕ} (x : BitVec n) (i : ℕ) {j : ℕ} (hj : j < k) :
    lane v (lane (v * k) x i) j = lane v x (k * i + j) := by
  refine lane_ext fun b hb => ?_
  have hin : v * j + b < v * k := by
    calc v * j + b < v * j + v := by omega
      _ = v * (j + 1) := (Nat.mul_succ v j).symm
      _ ≤ v * k := Nat.mul_le_mul_left v hj
  have hpos : v * k * i + (v * j + b) = v * (k * i + j) + b := by ring
  simp only [getLsbD_lane, hb, hin, hpos, decide_true, Bool.true_and]

theorem lane_and {w : ℕ} (x y : BitVec n) (i : ℕ) :
    lane w (x &&& y) i = lane w x i &&& lane w y i := by
  refine lane_ext fun j hj => ?_
  simp only [BitVec.getLsbD_and, getLsbD_lane, hj, decide_true, Bool.true_and]

theorem lane_or {w : ℕ} (x y : BitVec n) (i : ℕ) :
    lane w (x ||| y) i = lane w x i ||| lane w y i := by
  refine lane_ext fun j hj => ?_
  simp only [BitVec.getLsbD_or, getLsbD_lane, hj, decide_true, Bool.true_and]

/-! ## Building registers -/

theorem getLsbD_gather {w : ℕ} (hw : 0 < w) (f : ℕ → BitVec w) (k j : ℕ) :
    (gather n w f k).getLsbD j =
      (decide (j < n) && (decide (j < w * k) && (f (j / w)).getLsbD (j % w))) := by
  induction k with
  | zero => simp [gather]
  | succ k ih =>
      rw [gather, BitVec.getLsbD_or, ih, BitVec.getLsbD_shiftLeft, BitVec.getLsbD_setWidth]
      by_cases hn : j < n
      · have hn' : j - w * k < n := by omega
        simp only [hn, hn', decide_true, Bool.true_and, Nat.mul_succ]
        rcases Nat.lt_or_ge j (w * k) with hlt | hge
        · have hlt' : j < w * k + w := by omega
          simp [hlt, hlt']
        rcases Nat.lt_or_ge j (w * k + w) with hin | hout
        · have hdiv : j / w = k := Nat.div_eq_of_lt_le (by rwa [Nat.mul_comm]) (by
            rw [Nat.mul_comm, Nat.mul_succ]; exact hin)
          have hmod : j % w = j - w * k := by
            have hsplit := Nat.div_add_mod j w
            rw [hdiv] at hsplit
            omega
          have hge' : ¬ j < w * k := by omega
          simp [hin, hge', hdiv, hmod]
        · have hover : (f k).getLsbD (j - w * k) = false := BitVec.getLsbD_of_ge _ _ (by omega)
          have hout' : ¬ j < w * k + w := by omega
          have hge' : ¬ j < w * k := by omega
          simp [hout', hge', hover]
      · simp [hn]

/-- The lanes a register was built from. -/
theorem lane_ofLanes {w : ℕ} (f : ℕ → BitVec w) {i : ℕ} (hi : i < n / w) :
    lane w (ofLanes n w f) i = f i := by
  have hw : 0 < w := Nat.pos_of_ne_zero fun h => by simp [h] at hi
  refine lane_ext fun j hj => ?_
  have hlt : w * i + j < w * (n / w) := by
    calc w * i + j < w * i + w := by omega
      _ = w * (i + 1) := (Nat.mul_succ w i).symm
      _ ≤ w * (n / w) := Nat.mul_le_mul_left w hi
  have hn : w * i + j < n := Nat.lt_of_lt_of_le hlt (Nat.mul_div_le n w)
  have hdiv : (w * i + j) / w = i := by
    rw [Nat.mul_add_div hw, Nat.div_eq_of_lt hj, Nat.add_zero]
  have hmod : (w * i + j) % w = j := by rw [Nat.mul_add_mod, Nat.mod_eq_of_lt hj]
  simp only [ofLanes, getLsbD_lane, getLsbD_gather hw, hj, hlt, hn, hdiv, hmod, decide_true,
    Bool.true_and]

/-- Narrow lanes of a register that was built from wide ones. -/
theorem lane_ofLanes_mul {v k : ℕ} (hk : 0 < k) (f : ℕ → BitVec (v * k)) {i : ℕ}
    (hi : i < k * (n / (v * k))) :
    lane v (ofLanes n (v * k) f) i = lane v (f (i / k)) (i % k) := by
  have hdiv : i / k < n / (v * k) := Nat.div_lt_of_lt_mul hi
  have hsplit : k * (i / k) + i % k = i := Nat.div_add_mod i k
  rw [← lane_ofLanes f hdiv, lane_lane _ _ (Nat.mod_lt i hk), hsplit]

theorem lane_zipLanes {w : ℕ} (g : BitVec w → BitVec w → BitVec w) (x y : BitVec n) {i : ℕ}
    (hi : i < n / w) : lane w (zipLanes w g x y) i = g (lane w x i) (lane w y i) :=
  lane_ofLanes _ hi

/-- Two registers with the same lanes are equal. -/
theorem eq_of_lanes {w : ℕ} (hw : 0 < w) (hn : w ∣ n) {x y : BitVec n}
    (h : ∀ i < n / w, lane w x i = lane w y i) : x = y := by
  refine BitVec.eq_of_getLsbD_eq fun j hj => ?_
  have hi : j / w < n / w := Nat.div_lt_div_of_lt_of_dvd hn hj
  have hbit := congrArg (fun l : BitVec w => l.getLsbD (j % w)) (h _ hi)
  simpa only [getLsbD_lane, Nat.mod_lt j hw, Nat.div_add_mod, decide_true, Bool.true_and] using hbit

/-! ## Shifts of wide lanes -/

/-- A bit of a narrow lane after the wide lanes were shifted right. -/
theorem getLsbD_lane_ushiftRight {v k : ℕ} (hk : 0 < k) (x : BitVec n) (s : ℕ) {i b : ℕ}
    (hi : i < k * (n / (v * k))) (hb : b < v) (hin : v * (i % k) + b + s < v * k) :
    (lane v (mapLanes (v * k) (· >>> s) x) i).getLsbD b = x.getLsbD (v * i + b + s) := by
  have hpos : v * k * (i / k) + (s + (v * (i % k) + b)) = v * i + b + s := by
    conv_rhs => rw [← Nat.div_add_mod i k]
    ring
  have hin' : s + (v * (i % k) + b) < v * k := by omega
  rw [mapLanes, lane_ofLanes_mul hk _ hi, getLsbD_lane, BitVec.getLsbD_ushiftRight, getLsbD_lane,
    hpos]
  simp [hb, hin']

/-- A bit of a narrow lane after the wide lanes were shifted left. -/
theorem getLsbD_lane_shiftLeft {v k : ℕ} (hk : 0 < k) (x : BitVec n) (s : ℕ) {i b : ℕ}
    (hi : i < k * (n / (v * k))) (hb : b < v) (hin : s ≤ v * (i % k) + b) :
    (lane v (mapLanes (v * k) (· <<< s) x) i).getLsbD b = x.getLsbD (v * i + b - s) := by
  have hmod : i % k < k := Nat.mod_lt i hk
  have hfit : v * (i % k) + b < v * k := by
    calc v * (i % k) + b < v * (i % k) + v := by omega
      _ = v * (i % k + 1) := (Nat.mul_succ v _).symm
      _ ≤ v * k := Nat.mul_le_mul_left v hmod
  have hpos : v * k * (i / k) + (v * (i % k) + b - s) = v * i + b - s := by
    have hsplit : v * k * (i / k) + v * (i % k) = v * i := by
      conv_rhs => rw [← Nat.div_add_mod i k]
      ring
    omega
  have hback : v * (i % k) + b - s < v * k := by omega
  have hge : ¬ v * (i % k) + b < s := by omega
  rw [mapLanes, lane_ofLanes_mul hk _ hi, getLsbD_lane, BitVec.getLsbD_shiftLeft, getLsbD_lane,
    hpos]
  simp [hb, hfit, hback, hge]

/-! ## Registers with some bits given -/

/-- The register with the bits `f`. -/
def ofBits (f : Fin n → Bool) : BitVec n :=
  ofLanes n 1 fun i => if h : i < n then BitVec.ofBool (f ⟨i, h⟩) else 0#1

theorem getLsbD_ofBits (f : Fin n → Bool) (i : Fin n) : (ofBits f).getLsbD i = f i := by
  simp only [ofBits, ofLanes, getLsbD_gather Nat.one_pos, Nat.div_one, Nat.one_mul, i.isLt,
    decide_true, Bool.true_and, Nat.mod_one, dite_true]
  cases f i <;> rfl

theorem ofBits_injective : Function.Injective (ofBits (n := n)) := fun f g h => by
  funext i
  rw [← getLsbD_ofBits f, h, getLsbD_ofBits]

/-- A register agrees with the given bits where the mask has a one. -/
def AgreesOn (mask : BitVec n) (given : Fin n → Bool) (x : BitVec n) : Prop :=
  ∀ i : Fin n, mask.getLsbD i = true → x.getLsbD i = given i

/-- The other bits are free: each doubles the number of registers. -/
theorem ncard_agreesOn (mask : BitVec n) (given : Fin n → Bool) :
    {x | AgreesOn mask given x}.ncard =
      2 ^ (Finset.univ.filter fun i : Fin n => mask.getLsbD i = false).card := by
  let choices (i : Fin n) : Finset Bool := if mask.getLsbD i = false then Finset.univ else {given i}
  have himage : {x | AgreesOn mask given x} = ofBits '' (Fintype.piFinset choices : Set _) := by
    ext x
    simp only [Set.mem_ofPred_eq, Set.mem_image, Finset.mem_coe, Fintype.mem_piFinset]
    constructor
    · intro hx
      refine ⟨fun i => x.getLsbD i, fun i => ?_, ?_⟩
      · simp only [choices]
        split
        · exact Finset.mem_univ _
        · next h => exact Finset.mem_singleton.2 (hx i (Bool.not_eq_false _ ▸ h))
      · exact BitVec.eq_of_getLsbD_eq fun i hi => getLsbD_ofBits _ ⟨i, hi⟩
    · rintro ⟨f, hf, rfl⟩ i hi
      have hfi := hf i
      simp only [choices] at hfi
      rw [if_neg (by rw [hi]; decide)] at hfi
      rw [getLsbD_ofBits]
      exact Finset.mem_singleton.1 hfi
  have hcard (i : Fin n) : (choices i).card = if mask.getLsbD i = false then 2 else 1 := by
    simp only [choices]
    split <;> rfl
  rw [himage, Set.ncard_image_of_injective _ ofBits_injective, Set.ncard_coe_finset,
    Fintype.card_piFinset, Finset.prod_congr rfl fun i _ => hcard i, Finset.prod_ite]
  simp

/-! ## Memory -/

/-- The bytes behind a pointer, by their offset. -/
abbrev Memory := ℕ → UInt8

/-- An unaligned load, low byte first. -/
def Memory.load (mem : Memory) (n off : ℕ) : BitVec n :=
  ofLanes n 8 fun i => (mem (off + i)).toBitVec

/-- An unaligned store, low byte first. -/
def Memory.store (mem : Memory) (off : ℕ) (x : BitVec n) : Memory := fun a =>
  if off ≤ a ∧ a < off + n / 8 then .ofBitVec (lane 8 x (a - off)) else mem a

theorem Memory.lane_load (mem : Memory) (off : ℕ) {i : ℕ} (hi : i < n / 8) :
    lane 8 (mem.load n off) i = (mem (off + i)).toBitVec := lane_ofLanes _ hi

theorem Memory.store_here (mem : Memory) {off a : ℕ} (x : BitVec n) (hle : off ≤ a)
    (hlt : a < off + n / 8) : mem.store off x a = .ofBitVec (lane 8 x (a - off)) :=
  if_pos ⟨hle, hlt⟩

/-- A store leaves the rest of the memory alone. -/
theorem Memory.store_elsewhere (mem : Memory) {off a : ℕ} (x : BitVec n)
    (h : a < off ∨ off + n / 8 ≤ a) : mem.store off x a = mem a :=
  if_neg (by omega)

end FiberConn
