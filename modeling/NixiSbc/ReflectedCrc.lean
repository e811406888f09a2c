import Mathlib.Logic.Function.Iterate
import Mathlib.Data.List.Range

namespace NixiSbc.ReflectedCrc

variable {w : Nat} (poly : BitVec w)

/-- Shift one bit out; a one that falls out feeds the polynomial back. -/
def feedback (r : BitVec w) : BitVec w := if r.getLsbD 0 then (r >>> 1) ^^^ poly else r >>> 1

def bit (w : Nat) (b : Bool) : BitVec w := (BitVec.ofBool b).setWidth w

/-- One bit of the message. -/
def shiftIn (r : BitVec w) (b : Bool) : BitVec w := feedback poly (r ^^^ bit w b)

def serial (r : BitVec w) (bits : List Bool) : BitVec w := bits.foldl (shiftIn poly) r

/-- The lowest bits of a word, least significant first. -/
def lowBits (n : Nat) (d : BitVec w) : List Bool := (List.range n).map d.getLsbD

variable {poly}

theorem feedback_xor (x y : BitVec w) : feedback poly (x ^^^ y) = feedback poly x ^^^ feedback poly y := by
  rw [feedback, feedback, feedback, BitVec.getLsbD_xor, BitVec.ushiftRight_xor_distrib]
  cases x.getLsbD 0 with
  | false => cases y.getLsbD 0 <;> simp [BitVec.xor_assoc]
  | true =>
      cases y.getLsbD 0 with
      | false =>
          simp only [Bool.xor_false, Bool.false_eq_true, if_false, if_true]
          rw [BitVec.xor_assoc, BitVec.xor_assoc, BitVec.xor_comm poly]
      | true =>
          apply BitVec.eq_of_getLsbD_eq
          intro i _
          simp only [Bool.xor_self, Bool.false_eq_true, if_false, if_true, BitVec.getLsbD_xor]
          cases poly.getLsbD i <;> simp

theorem iterate_xor (n : Nat) (x y : BitVec w) :
    (feedback poly)^[n] (x ^^^ y) = (feedback poly)^[n] x ^^^ (feedback poly)^[n] y := by
  induction n generalizing x y with
  | zero => rfl
  | succ n ih => rw [Function.iterate_succ_apply, feedback_xor, ih]; rfl

/-- Zeros fall out without a trace. -/
theorem iterate_of_low_zero {n : Nat} {x : BitVec w} (h : ∀ i < n, x.getLsbD i = false) :
    (feedback poly)^[n] x = x >>> n := by
  induction n with
  | zero => rfl
  | succ n ih =>
      have hlow : (x >>> n).getLsbD 0 = false := by
        rw [BitVec.getLsbD_ushiftRight]
        exact h n (Nat.lt_succ_self n)
      rw [Function.iterate_succ_apply', ih fun i hi => h i (Nat.lt_succ_of_lt hi), feedback, hlow,
        if_neg Bool.false_ne_true, ← BitVec.shiftRight_add]

theorem getLsbD_bit (b : Bool) (i : Nat) : (bit w b).getLsbD i = (decide (i < w ∧ i = 0) && b) := by
  rw [bit, BitVec.getLsbD_setWidth, BitVec.getLsbD_ofBool]
  cases b <;> simp

/-- What falls out, and what stays. -/
theorem feedback_split (x : BitVec w) : feedback poly x = feedback poly (bit w (x.getLsbD 0)) ^^^ (x >>> 1) := by
  have hzero : ∀ b, bit w b >>> 1 = 0#w := by
    intro b
    apply BitVec.eq_of_getLsbD_eq
    intro i _
    rw [BitVec.getLsbD_ushiftRight, getLsbD_bit]
    simp
  have hlow : (bit w (x.getLsbD 0)).getLsbD 0 = x.getLsbD 0 := by
    rw [getLsbD_bit]
    cases hx : x.getLsbD 0 with
    | false => simp
    | true =>
        have hw := BitVec.lt_of_getLsbD hx
        simp [hw]
  rw [feedback, feedback, hlow, hzero]
  cases x.getLsbD 0 with
  | false => simp
  | true => simp [BitVec.xor_comm]

/-- Data that is mixed in ahead of the shifts is read bit by bit. -/
theorem iterate_eq_serial (n : Nat) (r d : BitVec w) :
    (feedback poly)^[n] (r ^^^ d) = serial poly r (lowBits n d) ^^^ (d >>> n) := by
  induction n with
  | zero => rfl
  | succ n ih =>
      have hlow : (d >>> n).getLsbD 0 = d.getLsbD n := BitVec.getLsbD_ushiftRight d n 0
      have hserial : serial poly r (lowBits (n + 1) d) = shiftIn poly (serial poly r (lowBits n d)) (d.getLsbD n) := by
        rw [lowBits, List.range_succ, List.map_append, serial, List.foldl_append]
        rfl
      rw [Function.iterate_succ_apply', ih, feedback_xor, feedback_split (d >>> n), hlow, hserial, shiftIn, feedback_xor,
        BitVec.xor_assoc, ← BitVec.shiftRight_add]

/-- What stays is shifted, and what falls out is looked up. -/
theorem table_step {k : Nat} {mask : BitVec w} (hmask : ∀ i < w, mask.getLsbD i = decide (i < k)) (r : BitVec w) :
    (r >>> k) ^^^ (feedback poly)^[k] (r &&& mask) = (feedback poly)^[k] r := by
  have hsplit : r = (r &&& mask) ^^^ (r &&& ~~~mask) := by
    apply BitVec.eq_of_getLsbD_eq
    intro i hi
    simp only [BitVec.getLsbD_xor, BitVec.getLsbD_and, BitVec.getLsbD_not, hi, decide_true, Bool.true_and]
    cases r.getLsbD i <;> cases mask.getLsbD i <;> rfl
  have hhigh : (feedback poly)^[k] (r &&& ~~~mask) = r >>> k := by
    rw [iterate_of_low_zero]
    · apply BitVec.eq_of_getLsbD_eq
      intro i hi
      by_cases hki : k + i < w
      · have hout : mask.getLsbD (k + i) = false := by
          rw [hmask _ hki]
          simp
        rw [BitVec.getLsbD_ushiftRight, BitVec.getLsbD_and, BitVec.getLsbD_not, hout, BitVec.getLsbD_ushiftRight]
        simp [hki]
      · simp [BitVec.getLsbD_ushiftRight, hki, BitVec.getLsbD_of_ge r (k + i) (by omega)]
    · intro i hi
      by_cases hw : i < w
      · simp [BitVec.getLsbD_and, BitVec.getLsbD_not, hmask i hw, hi]
      · simp [BitVec.getLsbD_of_ge r i (by omega)]
  conv_rhs => rw [hsplit, iterate_xor, hhigh]
  rw [BitVec.xor_comm]

end NixiSbc.ReflectedCrc
