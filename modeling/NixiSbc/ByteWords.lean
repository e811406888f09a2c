import Mathlib.Algebra.Order.Ring.Nat
import Mathlib.Data.List.Basic

namespace NixiSbc.ByteWords

abbrev Bytes := List UInt8

/-- The `w` big-endian bytes of a number; higher bits are dropped. -/
def beBytes : Nat → Nat → Bytes
  | 0, _ => []
  | w + 1, n => UInt8.ofNat (n / 256 ^ w) :: beBytes w n

def beNat : Bytes → Nat
  | [] => 0
  | b :: bs => b.toNat * 256 ^ bs.length + beNat bs

theorem beBytes_succ (w n : Nat) : beBytes (w + 1) n = UInt8.ofNat (n / 256 ^ w) :: beBytes w n := rfl

theorem beNat_cons (b : UInt8) (bs : Bytes) : beNat (b :: bs) = b.toNat * 256 ^ bs.length + beNat bs := rfl

@[simp] theorem beBytes_length (w n : Nat) : (beBytes w n).length = w := by
  induction w with
  | zero => rfl
  | succ w ih => rw [beBytes_succ, List.length_cons, ih]

theorem beNat_beBytes (w n : Nat) : beNat (beBytes w n) = n % 256 ^ w := by
  induction w with
  | zero => exact (Nat.mod_one n).symm
  | succ w ih =>
      have hsplit : n % 256 ^ (w + 1) = n % 256 ^ w + 256 ^ w * (n / 256 ^ w % 256) := by
        rw [pow_succ, Nat.mod_mul]
      rw [beBytes_succ, beNat_cons, beBytes_length, ih, UInt8.toNat_ofNat', hsplit, Nat.add_comm, Nat.mul_comm]

theorem beBytes_inj {w n m : Nat} (hn : n < 256 ^ w) (hm : m < 256 ^ w)
    (h : beBytes w n = beBytes w m) : n = m := by
  have hv := congrArg beNat h
  rwa [beNat_beBytes, beNat_beBytes, Nat.mod_eq_of_lt hn, Nat.mod_eq_of_lt hm] at hv

/-- Indexing a slice. Every use below sits behind the length test that the
program makes first, so the default is never read. -/
def byteAt (bs : Bytes) (i : Nat) : UInt8 := bs.getD i 0

def u16At (bs : Bytes) (i : Nat) : UInt16 :=
  UInt16.ofNat (beNat [byteAt bs i, byteAt bs (i + 1)])

def u32At (bs : Bytes) (i : Nat) : UInt32 :=
  UInt32.ofNat (beNat [byteAt bs i, byteAt bs (i + 1), byteAt bs (i + 2), byteAt bs (i + 3)])

theorem byteAt_congr {p q : Bytes} {i : Nat} (h : p[i]? = q[i]?) : byteAt p i = byteAt q i := by
  rw [byteAt, byteAt, List.getD_eq_getElem?_getD, List.getD_eq_getElem?_getD, h]

theorem byteAt_append_left {xs : Bytes} (ys : Bytes) {i : Nat} (h : i < xs.length) :
    byteAt (xs ++ ys) i = byteAt xs i := by
  simp [byteAt, List.getD_eq_getElem?_getD, List.getElem?_append_left h]

theorem byteAt_append_right (xs ys : Bytes) (i : Nat) :
    byteAt (xs ++ ys) (xs.length + i) = byteAt ys i := by
  rw [byteAt, byteAt, List.getD_eq_getElem?_getD, List.getD_eq_getElem?_getD,
    List.getElem?_append_right (by omega), Nat.add_sub_cancel_left]

theorem u16At_append_right (xs ys : Bytes) (i : Nat) :
    u16At (xs ++ ys) (xs.length + i) = u16At ys i := by
  rw [u16At, u16At, byteAt_append_right, Nat.add_assoc, byteAt_append_right]

theorem u32At_append_left {xs : Bytes} (ys : Bytes) {i : Nat} (h : i + 3 < xs.length) :
    u32At (xs ++ ys) i = u32At xs i := by
  rw [u32At, u32At, byteAt_append_left ys (by omega), byteAt_append_left ys (by omega),
    byteAt_append_left ys (by omega), byteAt_append_left ys h]

theorem u32At_append_right (xs ys : Bytes) (i : Nat) :
    u32At (xs ++ ys) (xs.length + i) = u32At ys i := by
  simp only [u32At, Nat.add_assoc, byteAt_append_right]

theorem u16At_beBytes (n : UInt16) (ys : Bytes) : u16At (beBytes 2 n.toNat ++ ys) 0 = n := by
  have h : beNat (beBytes 2 n.toNat) = n.toNat := by
    rw [beNat_beBytes]
    exact Nat.mod_eq_of_lt n.toNat_lt
  change UInt16.ofNat (beNat (beBytes 2 n.toNat)) = n
  rw [h, UInt16.ofNat_toNat]

theorem u32At_beBytes (n : UInt32) (ys : Bytes) : u32At (beBytes 4 n.toNat ++ ys) 0 = n := by
  have h : beNat (beBytes 4 n.toNat) = n.toNat := by
    rw [beNat_beBytes]
    exact Nat.mod_eq_of_lt n.toNat_lt
  change UInt32.ofNat (beNat (beBytes 4 n.toNat)) = n
  rw [h, UInt32.ofNat_toNat]

/-- XOR a mask into the front of a buffer, as far as both reach. -/
def xorInto : Bytes → Bytes → Bytes
  | b :: bs, m :: ms => (b ^^^ m) :: xorInto bs ms
  | bs, [] => bs
  | [], _ => []

@[simp] theorem xorInto_nil (bs : Bytes) : xorInto bs [] = bs := by
  cases bs <;> rfl

@[simp] theorem xorInto_cons (b m : UInt8) (bs ms : Bytes) :
    xorInto (b :: bs) (m :: ms) = (b ^^^ m) :: xorInto bs ms := rfl

theorem xorInto_length (bs mask : Bytes) : (xorInto bs mask).length = bs.length := by
  induction bs generalizing mask with
  | nil => cases mask <;> rfl
  | cons b bs ih => cases mask <;> simp [ih]

theorem xorInto_self (bs mask : Bytes) : xorInto (xorInto bs mask) mask = bs := by
  induction bs generalizing mask with
  | nil => cases mask <;> rfl
  | cons b bs ih =>
      cases mask with
      | nil => rfl
      | cons m ms => rw [xorInto_cons, xorInto_cons, UInt8.xor_assoc, UInt8.xor_self, UInt8.xor_zero, ih]

theorem xorInto_injective (mask : Bytes) : Function.Injective (xorInto · mask) :=
  Function.LeftInverse.injective (g := (xorInto · mask)) fun bs => xorInto_self bs mask

theorem xorInto_xorInto {a b : Bytes} (hlen : b.length ≤ a.length) (bs : Bytes) :
    xorInto (xorInto bs b) a = xorInto bs (xorInto a b) := by
  induction bs generalizing a b with
  | nil =>
      cases a <;> cases b <;> rfl
  | cons x bs ih =>
      cases a with
      | nil =>
          cases b with
          | nil => rfl
          | cons y b => simp at hlen
      | cons z a =>
          cases b with
          | nil => rfl
          | cons y b =>
              simp only [xorInto_cons, List.cons.injEq]
              refine ⟨?_, ih (by simpa using hlen)⟩
              rw [UInt8.xor_assoc, UInt8.xor_comm y z]

theorem xorInto_eq_self {bs mask : Bytes} (hlen : mask.length ≤ bs.length) :
    xorInto bs mask = bs ↔ ∀ b ∈ mask, b = 0 := by
  induction bs generalizing mask with
  | nil =>
      cases mask with
      | nil => simp
      | cons y mask => simp at hlen
  | cons x bs ih =>
      cases mask with
      | nil => simp
      | cons y mask =>
          have hxy : x ^^^ y = x ↔ y = 0 := by
            constructor
            · intro h
              have hx := congrArg (x ^^^ ·) h
              simpa only [← UInt8.xor_assoc, UInt8.xor_self, UInt8.zero_xor] using hx
            · rintro rfl
              exact UInt8.xor_zero
          rw [xorInto_cons, List.cons.injEq, hxy, ih (by simpa using hlen), List.forall_mem_cons]

/-- A stream cipher: every byte is XORed with the keystream byte at its position. -/
def applyKeystream (ks : Nat → UInt8) (bs : Bytes) : Bytes :=
  bs.mapIdx fun i b => b ^^^ ks i

@[simp] theorem applyKeystream_length (ks : Nat → UInt8) (bs : Bytes) :
    (applyKeystream ks bs).length = bs.length := by
  simp [applyKeystream]

@[simp] theorem applyKeystream_self (ks : Nat → UInt8) (bs : Bytes) :
    applyKeystream ks (applyKeystream ks bs) = bs := by
  apply List.ext_getElem
  · simp
  · intro i h h'
    simp only [applyKeystream, List.getElem_mapIdx]
    rw [UInt8.xor_assoc, UInt8.xor_self, UInt8.xor_zero]

theorem applyKeystream_zero (bs : Bytes) : applyKeystream (fun _ => 0) bs = bs := by
  apply List.ext_getElem
  · simp
  · intro i h h'
    simp [applyKeystream]

theorem applyKeystream_one_ne {bs : Bytes} (h : bs ≠ []) : applyKeystream (fun _ => 1) bs ≠ bs := by
  cases bs with
  | nil => exact absurd rfl h
  | cons b bs =>
      intro he
      simp only [applyKeystream, List.mapIdx_cons, List.cons.injEq] at he
      have hb := congrArg (b ^^^ ·) he.1
      simp only [← UInt8.xor_assoc, UInt8.xor_self, UInt8.zero_xor] at hb
      exact absurd hb (by decide)

theorem u32_toNat_max (a b : UInt32) : (max a b).toNat = max a.toNat b.toNat := by
  change (if a ≤ b then b else a).toNat = _
  split
  next h =>
    rw [UInt32.le_iff_toNat_le] at h
    omega
  next h =>
    rw [UInt32.le_iff_toNat_le] at h
    omega

theorem u32_le_max {a b m : UInt32} (h : m ≤ a ∨ m ≤ b) : m ≤ max a b := by
  simp only [UInt32.le_iff_toNat_le, u32_toNat_max] at h ⊢
  omega

theorem u32_max_eq_right {a b : UInt32} (h : a ≤ b) : max a b = b := by
  rw [UInt32.le_iff_toNat_le] at h
  rw [← UInt32.toNat_inj, u32_toNat_max]
  omega

theorem u32_toNat_succ {a : UInt32} (h : a.toNat + 1 < 2 ^ 32) : (a + 1).toNat = a.toNat + 1 := by
  rw [UInt32.toNat_add]
  exact Nat.mod_eq_of_lt h

theorem u32_lt_succ {a m : UInt32} (h : a.toNat + 1 < 2 ^ 32) (hm : m ≤ a) : m < a + 1 := by
  rw [UInt32.le_iff_toNat_le] at hm
  rw [UInt32.lt_iff_toNat_lt, u32_toNat_succ h]
  omega

end NixiSbc.ByteWords
