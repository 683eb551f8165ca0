import Mathlib.Tactic

namespace Ieee754

def exponentBits (exponent mantissa : Nat) {w : Nat} (v : BitVec w) : Nat :=
  v.toNat / 2 ^ mantissa % 2 ^ exponent

def mantissaBits (mantissa : Nat) {w : Nat} (v : BitVec w) : Nat := v.toNat % 2 ^ mantissa

def isFinite (exponent mantissa : Nat) {w : Nat} (v : BitVec w) : Bool :=
  exponentBits exponent mantissa v ≠ 2 ^ exponent - 1

def isNan (exponent mantissa : Nat) {w : Nat} (v : BitVec w) : Bool :=
  exponentBits exponent mantissa v = 2 ^ exponent - 1 ∧ mantissaBits mantissa v ≠ 0

theorem isNan_of_isFinite {exponent mantissa w : Nat} {v : BitVec w}
    (h : isFinite exponent mantissa v = true) : isNan exponent mantissa v = false := by
  simp only [isFinite, decide_eq_true_eq] at h
  simp [isNan, h]

def f32IsFinite (v : BitVec 32) : Bool := isFinite 8 23 v

def f64IsFinite (v : BitVec 64) : Bool := isFinite 11 52 v

def f32IsNan (v : BitVec 32) : Bool := isNan 8 23 v

def f64IsNan (v : BitVec 64) : Bool := isNan 11 52 v

def f32Nan : BitVec 32 := 0x7fc00000#32

def f64Nan : BitVec 64 := 0x7ff8000000000000#64

def f16ToF32 (v : BitVec 16) : BitVec 32 :=
  let sign := v.toNat / 2 ^ 15
  let exponent := exponentBits 5 10 v
  let mantissa := mantissaBits 10 v
  if exponent = 31 then
    let quiet := if mantissa = 0 then 0 else 2 ^ 22
    BitVec.ofNat 32 (sign * 2 ^ 31 + 255 * 2 ^ 23 + (mantissa * 2 ^ 13 ||| quiet))
  else if exponent = 0 then
    if mantissa = 0 then BitVec.ofNat 32 (sign * 2 ^ 31)
    else
      let top := Nat.log2 mantissa
      BitVec.ofNat 32
        (sign * 2 ^ 31 + (top + 103) * 2 ^ 23 + (mantissa - 2 ^ top) * 2 ^ (23 - top))
  else BitVec.ofNat 32 (sign * 2 ^ 31 + (exponent + 112) * 2 ^ 23 + mantissa * 2 ^ 13)

end Ieee754
