import MonetdbAdbc.Library.LittleEndian
import MonetdbAdbc.Library.Machine

namespace Rows
open LittleEndian Machine
variable {α β γ ε δ : Type} {xs : List α} {f : Nat → α → Except ε β} {width row : Nat} {ys : List β}
  {bytes : Bytes} {pieces : List Bytes} {g : Nat → Bytes → Except δ β}

def mapFrom (f : Nat → α → Except ε β) : Nat → List α → Except ε (List β)
  | _, [] => .ok []
  | row, x :: xs =>
    match f row x with
    | .error e => .error e
    | .ok y =>
      match mapFrom f (row + 1) xs with
      | .error e => .error e
      | .ok ys => .ok (y :: ys)

def mapRows (f : Nat → α → Except ε β) (xs : List α) : Except ε (List β) := mapFrom f 0 xs

theorem mapFrom_cons_ok {x : α} {zs : List β} (h : mapFrom f row (x :: xs) = .ok zs) :
    ∃ y ys, f row x = .ok y ∧ mapFrom f (row + 1) xs = .ok ys ∧ zs = y :: ys := by
  simp only [mapFrom] at h
  cases hy : f row x with
  | error e => simp [hy] at h
  | ok y =>
    cases hys : mapFrom f (row + 1) xs with
    | error e => simp [hy, hys] at h
    | ok ys =>
      simp only [hy, hys, Except.ok.injEq] at h
      exact ⟨y, ys, rfl, rfl, h.symm⟩

theorem mapFrom_cons_of_ok {x : α} {y : β} (hy : f row x = .ok y)
    (hys : mapFrom f (row + 1) xs = .ok ys) : mapFrom f row (x :: xs) = .ok (y :: ys) := by
  simp only [mapFrom, hy, hys]

theorem mapFrom_length (h : mapFrom f row xs = .ok ys) : ys.length = xs.length := by
  induction xs generalizing row ys with
  | nil =>
    simp only [mapFrom, Except.ok.injEq] at h
    simp [← h]
  | cons x xs ih =>
    obtain ⟨y, zs, -, hzs, rfl⟩ := mapFrom_cons_ok h
    simp [ih hzs]

def concat (f : Nat → α → Except ε Bytes) (xs : List α) : Except ε Bytes :=
  (mapRows f xs).map List.flatten

theorem concat_ok {f : Nat → α → Except ε Bytes} (h : concat f xs = .ok bytes) :
    ∃ pieces, mapRows f xs = .ok pieces ∧ bytes = pieces.flatten := by
  simp only [concat] at h
  cases hp : mapRows f xs with
  | error e => simp [hp, Except.map] at h
  | ok pieces =>
    simp only [hp, Except.map, Except.ok.injEq] at h
    exact ⟨pieces, rfl, h.symm⟩

theorem concat_singleton (f : Nat → α → Except ε Bytes) (x : α) : concat f [x] = f 0 x := by
  cases h : f 0 x with
  | error e | ok piece => simp [concat, mapRows, mapFrom, h, Except.map]

def takeChunks (width : Nat) : Nat → Bytes → List Bytes
  | 0, _ => []
  | n + 1, bs => bs.take width :: takeChunks width n (bs.drop width)

def chunksExact (width : Nat) (bs : Bytes) : List Bytes := takeChunks width (bs.length / width) bs

theorem takeChunks_flatten (h : ∀ p ∈ pieces, p.length = width) :
    takeChunks width pieces.length pieces.flatten = pieces := by
  induction pieces with
  | nil => rfl
  | cons p ps ih =>
    have hp : p.length = width := h p List.mem_cons_self
    have hps := ih fun q hq => h q (List.mem_cons_of_mem p hq)
    simp only [List.length_cons, List.flatten_cons, takeChunks]
    rw [List.take_left' hp, List.drop_left' hp, hps]

theorem takeChunks_length {count : Nat} {bs : Bytes} (h : count * width ≤ bs.length) :
    ∀ piece ∈ takeChunks width count bs, piece.length = width := by
  induction count generalizing bs with
  | zero => simp [takeChunks]
  | succ count ih =>
    intro piece hpiece
    rw [Nat.succ_mul] at h
    rcases List.mem_cons.mp hpiece with rfl | hpiece
    · rw [List.length_take]
      omega
    · refine ih ?_ piece hpiece
      rw [List.length_drop]
      omega

theorem chunksExact_length (bs : Bytes) : ∀ piece ∈ chunksExact width bs, piece.length = width :=
  takeChunks_length (Nat.div_mul_le_self bs.length width)

theorem flatten_takeChunks {count : Nat} {bs : Bytes} (h : bs.length = count * width) :
    (takeChunks width count bs).flatten = bs := by
  induction count generalizing bs with
  | zero => simpa [takeChunks] using (List.length_eq_zero_iff.mp (by simpa using h)).symm
  | succ count ih =>
    have hrest : (bs.drop width).length = count * width := by
      rw [List.length_drop, h, Nat.succ_mul, Nat.add_sub_cancel]
    rw [takeChunks, List.flatten_cons, ih hrest, List.take_append_drop]

theorem flatten_length (width : Nat) (h : ∀ p ∈ pieces, p.length = width) :
    pieces.flatten.length = pieces.length * width := by
  induction pieces with
  | nil => simp
  | cons p ps ih =>
    have hp : p.length = width := h p List.mem_cons_self
    have hps := ih fun q hq => h q (List.mem_cons_of_mem p hq)
    simp only [List.flatten_cons, List.length_append, List.length_cons, hp, hps]
    ring

theorem mapFrom_pieces {P : β → Prop} (hf : ∀ row x p, f row x = .ok p → P p) {pieces : List β}
    (h : mapFrom f row xs = .ok pieces) : ∀ p ∈ pieces, P p := by
  induction xs generalizing row pieces with
  | nil =>
    simp only [mapFrom, Except.ok.injEq] at h
    simp [← h]
  | cons x xs ih =>
    obtain ⟨y, ys, hy, hys, rfl⟩ := mapFrom_cons_ok h
    intro p hp
    rcases List.mem_cons.mp hp with rfl | hp
    · exact hf row x p hy
    · exact ih hys p hp

theorem concat_length {f : Nat → α → Except ε Bytes}
    (hf : ∀ row x p, f row x = .ok p → p.length = width) (h : concat f xs = .ok bytes) :
    bytes.length = xs.length * width := by
  obtain ⟨pieces, hp, rfl⟩ := concat_ok h
  rw [flatten_length width (mapFrom_pieces hf hp), mapFrom_length hp]

theorem concat_chunks (hw : 0 < width) {f : Nat → α → Except ε Bytes}
    (hf : ∀ row x p, f row x = .ok p → p.length = width) (h : concat f xs = .ok bytes) :
    mapRows f xs = .ok (chunksExact width bytes) := by
  obtain ⟨pieces, hp, rfl⟩ := concat_ok h
  have hlen := mapFrom_pieces hf hp
  rw [hp, chunksExact, flatten_length width hlen, Nat.mul_div_cancel _ hw, takeChunks_flatten hlen]

theorem mapFrom_round_trip {f : Nat → α → Except ε Bytes} {see : α → γ} {seen : β → γ}
    (hfg : ∀ row x p, x ∈ xs → f row x = .ok p → ∃ y, g row p = .ok y ∧ seen y = see x)
    (h : mapFrom f row xs = .ok pieces) :
    ∃ ys, mapFrom g row pieces = .ok ys ∧ ys.map seen = xs.map see := by
  induction xs generalizing row pieces with
  | nil =>
    simp only [mapFrom, Except.ok.injEq] at h
    exact ⟨[], by simp [← h, mapFrom], rfl⟩
  | cons x xs ih =>
    obtain ⟨p, ps, hp, hps, rfl⟩ := mapFrom_cons_ok h
    obtain ⟨y, hy, hsee⟩ := hfg row x p List.mem_cons_self hp
    obtain ⟨ys, hys, hsees⟩ := ih (fun row x p hx => hfg row x p (List.mem_cons_of_mem _ hx)) hps
    exact ⟨y :: ys, mapFrom_cons_of_ok hy hys, by simp [hsee, hsees]⟩

theorem concat_round_trip (hw : 0 < width) {f : Nat → α → Except ε Bytes} {see : α → γ}
    {seen : β → γ} (hf : ∀ row x p, f row x = .ok p → p.length = width)
    (hfg : ∀ row x p, x ∈ xs → f row x = .ok p → ∃ y, g row p = .ok y ∧ seen y = see x)
    (h : concat f xs = .ok bytes) :
    ∃ ys, mapRows g (chunksExact width bytes) = .ok ys ∧ ys.map seen = xs.map see :=
  mapFrom_round_trip hfg (concat_chunks hw hf h)

theorem mapFrom_reverse {f : Nat → β → Except δ α} {g : Nat → α → Except ε β}
    (hfg : ∀ row x y, x ∈ xs → g row x = .ok y → f row y = .ok x) (h : mapFrom g row xs = .ok ys) :
    mapFrom f row ys = .ok xs := by
  induction xs generalizing row ys with
  | nil =>
    simp only [mapFrom, Except.ok.injEq] at h
    rw [← h]
    rfl
  | cons x xs ih =>
    obtain ⟨y, zs, hy, hzs, rfl⟩ := mapFrom_cons_ok h
    exact mapFrom_cons_of_ok (hfg row x y List.mem_cons_self hy)
      (ih (fun row x y hx => hfg row x y (List.mem_cons_of_mem _ hx)) hzs)

theorem chunksExact_flatten {rows : Nat} (hw : 0 < width) {bs : Bytes}
    (h : bs.length = rows * width) : (chunksExact width bs).flatten = bs := by
  rw [chunksExact, h, Nat.mul_div_cancel _ hw, flatten_takeChunks h]

theorem mapFrom_pure (f : α → β) (row : Nat) (xs : List α) :
    mapFrom (fun _ x => (.ok (f x) : Except ε β)) row xs = .ok (xs.map f) := by
  induction xs generalizing row with
  | nil => rfl
  | cons x xs ih => exact mapFrom_cons_of_ok rfl (ih (row + 1))

theorem mapFrom_map_inverse {f : α → β} {g : Nat → β → Except ε α}
    (hfg : ∀ row x, g row (f x) = .ok x) (row : Nat) (xs : List α) :
    mapFrom g row (xs.map f) = .ok xs := by
  induction xs generalizing row with
  | nil => rfl
  | cons x xs ih => exact mapFrom_cons_of_ok (hfg row x) (ih (row + 1))

theorem mapFrom_map (g : α → β) (f : Nat → β → Except ε γ) (row : Nat) (xs : List α) :
    mapFrom f row (xs.map g) = mapFrom (fun row x => f row (g x)) row xs := by
  induction xs generalizing row with
  | nil => rfl
  | cons x xs ih => rw [List.map_cons, mapFrom, mapFrom, ih]

theorem mapFrom_eq_ok_congr {g : Nat → α → Except ε β}
    (h : ∀ row x y, f row x = .ok y ↔ g row x = .ok y) :
    mapFrom f row xs = .ok ys ↔ mapFrom g row xs = .ok ys := by
  induction xs generalizing row ys with
  | nil => rfl
  | cons x xs ih =>
    constructor
    · intro hmap
      obtain ⟨y, zs, hy, hzs, rfl⟩ := mapFrom_cons_ok hmap
      exact mapFrom_cons_of_ok ((h row x y).mp hy) (ih.mp hzs)
    · intro hmap
      obtain ⟨y, zs, hy, hzs, rfl⟩ := mapFrom_cons_ok hmap
      exact mapFrom_cons_of_ok ((h row x y).mpr hy) (ih.mpr hzs)

theorem mapFrom_findIdx (bad : α → Bool) (g : α → β) (error : Nat → ε)
    (hgood : ∀ row x, bad x = false → f row x = .ok (g x))
    (hbad : ∀ row x, bad x = true → f row x = .error (error row)) (row : Nat) (xs : List α) :
    mapFrom f row xs =
      (xs.findIdx? bad).elim (.ok (xs.map g)) fun index => .error (error (row + index)) := by
  induction xs generalizing row with
  | nil => rfl
  | cons x xs ih =>
    rw [mapFrom, ih, List.findIdx?_cons]
    cases hx : bad x with
    | true => simp [hbad row x hx]
    | false =>
      rw [hgood row x hx]
      cases xs.findIdx? bad with
      | none => rfl
      | some index => simp [Nat.add_right_comm, Nat.add_assoc]

theorem mapFrom_check (check : Nat → α → Except ε Unit) (f : α → β) (row : Nat) (xs : List α) :
    mapFrom (fun row x => (check row x).map fun _ => f x) row xs =
      (mapFrom check row xs).map fun _ => xs.map f := by
  induction xs generalizing row with
  | nil => rfl
  | cons x xs ih =>
    simp only [mapFrom, ih]
    cases check row x with
    | error e => rfl
    | ok u => cases mapFrom check (row + 1) xs <;> rfl

-- Whether a row converts does not depend on where it stands.
def RowFree (f : Nat → α → Except ε β) : Prop := ∀ row x, (f row x).toOption = (f 0 x).toOption

theorem mapFrom_isOk (hf : RowFree f) (row : Nat) (xs : List α) :
    IsOk (mapFrom f row xs) ↔ ∀ x ∈ xs, IsOk (f 0 x) := by
  induction xs generalizing row with
  | nil => simp [mapFrom]
  | cons x xs ih =>
    rw [List.forall_mem_cons, ← ih (row + 1), ← isOk_congr (hf row x)]
    constructor
    · rintro ⟨zs, h⟩
      obtain ⟨y, ys, hy, hys, -⟩ := mapFrom_cons_ok h
      exact ⟨⟨y, hy⟩, ys, hys⟩
    · rintro ⟨⟨y, hy⟩, ys, hys⟩
      exact ⟨_, mapFrom_cons_of_ok hy hys⟩

def Additive (f : List α → Except ε β) : Prop :=
  ∀ xs ys, IsOk (f (xs ++ ys)) ↔ IsOk (f xs) ∧ IsOk (f ys)

theorem additive_of_forall {f : List α → Except ε β} {p : α → Prop}
    (h : ∀ xs, IsOk (f xs) ↔ ∀ x ∈ xs, p x) : Additive f := by
  intro xs ys
  rw [h, h, h, List.forall_mem_append]

theorem additive_mapRows (hf : RowFree f) : Additive (mapRows f) :=
  additive_of_forall (mapFrom_isOk hf 0)

theorem additive_concat {f : Nat → α → Except ε Bytes} (hf : RowFree f) : Additive (concat f) := by
  intro xs ys
  rw [concat, concat, concat, isOk_map, isOk_map, isOk_map]
  exact additive_mapRows hf xs ys

theorem additive_ok (f : List α → β) : Additive fun xs => (.ok (f xs) : Except ε β) := by
  intro xs ys
  simp

theorem Additive.slice {f : List α → Except ε β} (h : Additive f) (xs : List α) (start m n : Nat) :
    IsOk (f ((xs.drop start).take (m + n))) ↔
      IsOk (f ((xs.drop start).take m)) ∧ IsOk (f ((xs.drop (start + m)).take n)) := by
  rw [List.take_add, List.drop_drop]
  exact h _ _

end Rows
