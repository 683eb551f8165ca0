import Mathlib.Tactic

namespace LittleEndian

abbrev Bytes := List UInt8

def toLe : Nat → Nat → Bytes
  | 0, _ => []
  | k + 1, n => UInt8.ofNat n :: toLe k (n / 256)

def ofLe : Bytes → Nat
  | [] => 0
  | b :: bs => b.toNat + 256 * ofLe bs

@[simp] theorem toLe_length (k n : Nat) : (toLe k n).length = k := by
  induction k generalizing n with
  | zero => rfl
  | succ k ih => simp [toLe, ih]

theorem ofLe_lt (bs : Bytes) : ofLe bs < 256 ^ bs.length := by
  induction bs with
  | nil => simp [ofLe]
  | cons b bs ih =>
    have hb := b.toNat_lt
    simp only [ofLe, List.length_cons, pow_succ]
    omega

theorem ofLe_toLe (k n : Nat) : ofLe (toLe k n) = n % 256 ^ k := by
  induction k generalizing n with
  | zero => simp [toLe, ofLe, Nat.mod_one]
  | succ k ih =>
    have hb : (UInt8.ofNat n).toNat = n % 256 := UInt8.toNat_ofNat'
    rw [toLe, ofLe, ih, hb, Nat.pow_succ, Nat.mul_comm (256 ^ k) 256, Nat.mod_mul]

theorem toLe_ofLe (bs : Bytes) : toLe bs.length (ofLe bs) = bs := by
  induction bs with
  | nil => rfl
  | cons b bs ih =>
    have hb := b.toNat_lt
    have hdiv : (b.toNat + 256 * ofLe bs) / 256 = ofLe bs := by omega
    have hmod : UInt8.ofNat (b.toNat + 256 * ofLe bs) = b := by
      apply UInt8.toNat_inj.mp
      rw [UInt8.toNat_ofNat']
      omega
    simp only [List.length_cons, toLe, ofLe, hdiv, hmod, ih]

def leBytes {w : Nat} (v : BitVec w) : Bytes := toLe (w / 8) v.toNat

def ofLeBytes (w : Nat) (bs : Bytes) : BitVec w := BitVec.ofNat w (ofLe bs)

@[simp] theorem leBytes_length {w : Nat} (v : BitVec w) : (leBytes v).length = w / 8 :=
  toLe_length _ _

theorem ofLeBytes_leBytes {w : Nat} (hw : 8 ∣ w) (v : BitVec w) : ofLeBytes w (leBytes v) = v := by
  obtain ⟨k, rfl⟩ := hw
  apply BitVec.eq_of_toNat_eq
  have hv := v.isLt
  have hpow : (256 : Nat) ^ k = 2 ^ (8 * k) := by rw [Nat.pow_mul]
  simp only [ofLeBytes, leBytes, BitVec.toNat_ofNat, ofLe_toLe]
  rw [Nat.mul_div_cancel_left k (by decide), hpow, Nat.mod_mod, Nat.mod_eq_of_lt hv]

theorem leBytes_ofLeBytes {w : Nat} (bs : Bytes) (hw : w = 8 * bs.length) :
    leBytes (ofLeBytes w bs) = bs := by
  subst hw
  have hlt := ofLe_lt bs
  have hpow : (256 : Nat) ^ bs.length = 2 ^ (8 * bs.length) := by rw [Nat.pow_mul]
  simp only [leBytes, ofLeBytes, BitVec.toNat_ofNat]
  rw [Nat.mod_eq_of_lt (hpow ▸ hlt), Nat.mul_div_cancel_left _ (by decide), toLe_ofLe]

end LittleEndian
