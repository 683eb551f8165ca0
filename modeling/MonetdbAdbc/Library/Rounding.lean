import Mathlib.Tactic

namespace Rounding

def distance (x y : Nat) : Nat := (x - y) + (y - x)

structure Nearest (S : Set Nat) (x y : Nat) : Prop where
  mem : y ∈ S
  least : ∀ v ∈ S, distance x y ≤ distance x v
  ties_up : ∀ v ∈ S, distance x v = distance x y → v ≤ y

variable {S : Set Nat} {x lower upper : Nat}

theorem nearest_self (h : x ∈ S) : Nearest S x x where
  mem := h
  least v _ := by
    rw [distance, Nat.sub_self]
    exact Nat.zero_le _
  ties_up v _ htie := by
    simp only [distance] at htie
    omega

theorem Nearest.eq_self {y : Nat} (h : Nearest S x y) (hx : x ∈ S) : y = x := by
  have hleast := h.least x hx
  simp only [distance] at hleast
  omega

theorem nearest_upper (hle : lower ≤ x) (hupper : upper ∈ S) (hlt : x < upper)
    (hgap : ∀ v ∈ S, v ≤ lower ∨ upper ≤ v) (hcloser : upper - x ≤ x - lower) :
    Nearest S x upper where
  mem := hupper
  least v hv := by
    simp only [distance]
    rcases hgap v hv with hbelow | habove <;> omega
  ties_up v hv htie := by
    simp only [distance] at htie
    rcases hgap v hv with hbelow | habove <;> omega

theorem nearest_lower (hlower : lower ∈ S) (hle : lower ≤ x) (hlt : x < upper)
    (hgap : ∀ v ∈ S, v ≤ lower ∨ upper ≤ v) (hcloser : x - lower < upper - x) :
    Nearest S x lower where
  mem := hlower
  least v hv := by
    simp only [distance]
    rcases hgap v hv with hbelow | habove <;> omega
  ties_up v hv htie := by
    simp only [distance] at htie
    rcases hgap v hv with hbelow | habove <;> omega

theorem nearest_last (hlower : lower ∈ S) (hle : lower ≤ x) (hlast : ∀ v ∈ S, v ≤ lower) :
    Nearest S x lower where
  mem := hlower
  least v hv := by
    have hbelow := hlast v hv
    simp only [distance]
    omega
  ties_up v hv _ := hlast v hv

end Rounding
