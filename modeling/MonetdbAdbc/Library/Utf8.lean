import MonetdbAdbc.Library.LittleEndian

namespace Utf8
open LittleEndian
variable {bs : Bytes}

inductive State where
  | start
  | tail (owed : Nat) (low high : UInt8)
  deriving DecidableEq, Repr

def lead (b : UInt8) : Option State :=
  if b < 0x80 then some .start
  else if b < 0xC2 then none
  else if b < 0xE0 then some (.tail 1 0x80 0xBF)
  else if b < 0xF0 then
    some (.tail 2 (if b = 0xE0 then 0xA0 else 0x80) (if b = 0xED then 0x9F else 0xBF))
  else if b < 0xF5 then
    some (.tail 3 (if b = 0xF0 then 0x90 else 0x80) (if b = 0xF4 then 0x8F else 0xBF))
  else none

def next : State → UInt8 → Option State
  | .start, b => lead b
  | .tail owed low high, b =>
    if low ≤ b ∧ b ≤ high then
      some (if owed ≤ 1 then .start else .tail (owed - 1) 0x80 0xBF)
    else none

def run : State → Bytes → Option State
  | q, [] => some q
  | q, b :: bs => (next q b).bind fun q' => run q' bs

def valid (bs : Bytes) : Bool := run .start bs = some .start

theorem run_append (q : State) (xs ys : Bytes) :
    run q (xs ++ ys) = (run q xs).bind fun q' => run q' ys := by
  induction xs generalizing q with
  | nil => rfl
  | cons x xs ih =>
    simp only [List.cons_append, run]
    cases hn : next q x with
    | none => rfl
    | some q' => exact ih q'

theorem valid_append {xs ys : Bytes} (hx : valid xs = true) (hy : valid ys = true) :
    valid (xs ++ ys) = true := by
  simp only [valid, decide_eq_true_eq] at hx hy ⊢
  rw [run_append, hx]
  exact hy

theorem valid_of_ascii (h : ∀ b ∈ bs, b < 0x80) : valid bs = true := by
  induction bs with
  | nil => rfl
  | cons b bs ih =>
    have hb : next .start b = some .start := if_pos (h b List.mem_cons_self)
    have hrest := ih fun c hc => h c (List.mem_cons_of_mem b hc)
    simp only [valid, decide_eq_true_eq] at hrest ⊢
    rw [run, hb]
    exact hrest

theorem head_not_continuation {b : UInt8} (h : valid (b :: bs) = true) : b < 0x80 ∨ 0xC2 ≤ b := by
  have hrun : run .start (b :: bs) = some .start := by simpa [valid] using h
  by_contra hb
  rw [not_or] at hb
  obtain ⟨hlow, hhigh⟩ := hb
  have hl : lead b = none := by
    simp only [lead, if_neg hlow]
    rw [if_pos (by simpa using hhigh)]
  simp [run, next, hl] at hrun

theorem valid_right {xs ys : Bytes} (hx : valid xs = true) (h : valid (xs ++ ys) = true) :
    valid ys = true := by
  simp only [valid, decide_eq_true_eq, run_append] at hx h ⊢
  rwa [hx, Option.bind_some] at h

def State.Bounded : State → Prop
  | .start => True
  | .tail _ low high => 0x80 ≤ low ∧ high ≤ 0xBF

theorem next_bounded {q q' : State} {b : UInt8} (h : next q b = some q') : q'.Bounded := by
  cases q with
  | start =>
    rw [next, lead] at h
    split_ifs at h <;> obtain rfl := Option.some.inj h <;> simp only [State.Bounded] <;> decide
  | tail owed low high =>
    rw [next] at h
    split_ifs at h
    · cases h
      trivial
    · cases h
      exact ⟨UInt8.le_rfl, UInt8.le_rfl⟩

theorem run_bounded {q q' : State} (hq : q.Bounded) (h : run q bs = some q') : q'.Bounded := by
  induction bs generalizing q with
  | nil =>
    cases h
    exact hq
  | cons b bs ih =>
    rw [run] at h
    cases hnext : next q b with
    | none =>
      rw [hnext] at h
      cases h
    | some state =>
      rw [hnext] at h
      exact ih (next_bounded hnext) h

theorem valid_left {xs ys : Bytes} (hy : valid ys = true) (h : valid (xs ++ ys) = true) :
    valid xs = true := by
  simp only [valid, decide_eq_true_eq, run_append] at h ⊢
  cases hrun : run .start xs with
  | none =>
    rw [hrun] at h
    cases h
  | some state =>
    rw [hrun, Option.bind_some] at h
    cases state with
    | start => rfl
    | tail owed low high =>
      obtain ⟨hlow, hhigh⟩ : 0x80 ≤ low ∧ high ≤ 0xBF :=
        run_bounded (show State.Bounded .start from trivial) hrun
      cases ys with
      | nil => cases h
      | cons b ys =>
        have houtside : ¬(low ≤ b ∧ b ≤ high) := by
          rintro ⟨hb, hb'⟩
          rcases head_not_continuation hy with hascii | hwide
          · exact absurd (UInt8.le_trans hlow hb) (UInt8.not_le.mpr hascii)
          · exact absurd (UInt8.le_trans hwide (UInt8.le_trans hb' hhigh)) (by decide)
        rw [run, next, if_neg houtside] at h
        cases h

structure Str where
  bytes : Bytes
  utf8 : valid bytes = true
  deriving DecidableEq, Repr

def fromUtf8 (bs : Bytes) : Option Str :=
  if h : valid bs = true then some ⟨bs, h⟩ else none

theorem fromUtf8_some {s : Str} (h : fromUtf8 bs = some s) : s.bytes = bs := by
  rw [fromUtf8] at h
  split_ifs at h
  rw [← Option.some.inj h]

@[simp] theorem fromUtf8_bytes (s : Str) : fromUtf8 s.bytes = some s := by
  simp [fromUtf8, s.utf8]

end Utf8
