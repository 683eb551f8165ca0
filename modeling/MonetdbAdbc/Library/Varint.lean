import MonetdbAdbc.Library.LittleEndian

namespace Varint
open LittleEndian

def write (n : Nat) : Bytes :=
  if n / 128 = 0 then [UInt8.ofNat (n % 128)]
  else UInt8.ofNat (n % 128 + 128) :: write (n / 128)
termination_by n
decreasing_by omega

theorem write_length (n : Nat) : (write n).length = Nat.log 128 n + 1 := by
  induction n using Nat.strong_induction_on with
  | _ n ih =>
    rw [write]
    split_ifs with hlast
    · have hsmall : n < 128 := by omega
      rw [Nat.log_of_lt hsmall, List.length_singleton]
    · have hlarge : 128 ≤ n := by omega
      rw [List.length_cons, ih (n / 128) (by omega), Nat.log_of_one_lt_of_le (by decide) hlarge]

end Varint
