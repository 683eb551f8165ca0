import MonetdbAdbc.Library.Machine

namespace Bisection
open Machine

variable {ε : Type}

def bisect (stuck : ε) (fits : Nat → Except ε Bool) : Nat → Nat → Nat → Except ε Nat
  | 0, low, high => if low < high then .error stuck else .ok low
  | fuel + 1, low, high =>
    if low < high then do
      let middle := low + (high - low + 1) / 2
      match ← fits middle with
      | true => bisect stuck fits fuel middle high
      | false => bisect stuck fits fuel low (middle - 1)
    else .ok low

theorem largest_of_refused {P : Nat → Prop} {top last : Nat} (hle : last ≤ top) (hlast : P last)
    (habove : ∀ n, last < n → n ≤ top → ¬P n) :
    last ≤ top ∧ P last ∧ ∀ n ≤ top, P n → n ≤ last := by
  refine ⟨hle, hlast, fun n hn hp => ?_⟩
  by_contra hlt
  exact habove n (by omega) hn hp

-- Everything above high has been refused and low accepted, so the loop ends at the last one.
theorem bisect_largest {stuck : ε} {fits : Nat → Except ε Bool} {P : Nat → Prop} [DecidablePred P]
    {top fuel low high : Nat} (hfits : ∀ n ≤ top, fits n = .ok (decide (P n)))
    (hdown : ∀ n m, n ≤ m → P m → P n) (hlow : P low) (hle : low ≤ high) (htop : high ≤ top)
    (habove : ∀ n, high < n → n ≤ top → ¬P n) (hfuel : high - low ≤ fuel) :
    ∃ last, bisect stuck fits fuel low high = .ok last ∧ last ≤ top ∧ P last ∧
      ∀ n ≤ top, P n → n ≤ last := by
  induction fuel generalizing low high with
  | zero =>
    obtain rfl : low = high := by omega
    exact ⟨low, if_neg (lt_irrefl low), largest_of_refused htop hlow habove⟩
  | succ fuel ih =>
    rcases Nat.lt_or_eq_of_le hle with hlt | rfl
    · have hmiddle := hfits (low + (high - low + 1) / 2) (by omega)
      simp only [bisect, if_pos hlt, hmiddle, ok_bind]
      by_cases hp : P (low + (high - low + 1) / 2)
      · simp only [hp, decide_true]
        exact ih hp (by omega) htop habove (by omega)
      · simp only [hp, decide_false]
        refine ih hlow (by omega) (by omega) ?_ (by omega)
        intro n hn _ hpn
        exact hp (hdown _ n (by omega) hpn)
    · exact ⟨low, if_neg (lt_irrefl low), largest_of_refused htop hlow habove⟩

end Bisection
