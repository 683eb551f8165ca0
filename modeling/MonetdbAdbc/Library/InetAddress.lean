import MonetdbAdbc.Library.Utf8

namespace InetAddress
open LittleEndian Utf8
variable {bs : Bytes}

def digitValue (radix : Nat) (b : UInt8) : Option Nat :=
  let n := b.toNat
  let value :=
    if 48 ≤ n ∧ n ≤ 57 then some (n - 48)
    else if 97 ≤ n ∧ n ≤ 102 then some (n - 87)
    else if 65 ≤ n ∧ n ≤ 70 then some (n - 55)
    else none
  value.filter (· < radix)

def readDigits (radix : Nat) : Nat → Nat → Bytes → Nat × Nat × Bytes
  | count, value, [] => (count, value, [])
  | count, value, b :: bs =>
    match digitValue radix b with
    | none => (count, value, b :: bs)
    | some digit => readDigits radix (count + 1) (value * radix + digit) bs

def readNumber (radix maxDigits bound : Nat) (allowZeroPrefix : Bool) (bs : Bytes) :
    Option (Nat × Bytes) :=
  let (count, value, rest) := readDigits radix 0 0 bs
  if count = 0 ∨ count > maxDigits then none
  else if !allowZeroPrefix && bs.head? == some 48 && count > 1 then none
  else if value < bound then some (value, rest)
  else none

def readGivenChar (c : UInt8) : Bytes → Option Bytes
  | [] => none
  | b :: bs => if b = c then some bs else none

def readSeparator {α : Type} (separator : UInt8) (index : Nat) (inner : Bytes → Option (α × Bytes))
    (bs : Bytes) : Option (α × Bytes) :=
  if index = 0 then inner bs else (readGivenChar separator bs).bind inner

def readIpv4Groups : Nat → Nat → Bytes → Option (List Nat × Bytes)
  | 0, _, bs => some ([], bs)
  | n + 1, index, bs => do
    let (octet, rest) ← readSeparator 46 index (readNumber 10 3 256 false) bs
    let (octets, rest) ← readIpv4Groups n (index + 1) rest
    some (octet :: octets, rest)

def readIpv4 (bs : Bytes) : Option (List Nat × Bytes) := readIpv4Groups 4 0 bs

def parseIpv4 (bs : Bytes) : Option (List Nat) :=
  if bs.length > 15 then none
  else
    match readIpv4 bs with
    | some (octets, []) => some octets
    | _ => none

def readIpv6Groups (limit : Nat) : Nat → Nat → Bytes → List Nat × Bool × Bytes
  | 0, _, bs => ([], false, bs)
  | n + 1, index, bs =>
    let embedded := if index + 1 < limit then readSeparator 58 index readIpv4 bs else none
    match embedded with
    | some ([a, b, c, d], rest) => ([a * 256 + b, c * 256 + d], true, rest)
    | _ =>
      match readSeparator 58 index (readNumber 16 4 65536 true) bs with
      | none => ([], false, bs)
      | some (group, rest) =>
        let (groups, ipv4, rest) := readIpv6Groups limit n (index + 1) rest
        (group :: groups, ipv4, rest)

def readIpv6 (bs : Bytes) : Option (List Nat × Bytes) :=
  let (head, ipv4, rest) := readIpv6Groups 8 8 0 bs
  if head.length = 8 then some (head, rest)
  else if ipv4 then none
  else do
    let rest ← readGivenChar 58 rest
    let rest ← readGivenChar 58 rest
    let limit := 8 - (head.length + 1)
    let (tail, _, rest) := readIpv6Groups limit limit 0 rest
    some (head ++ List.replicate (8 - head.length - tail.length) 0 ++ tail, rest)

def parseIpv6 (bs : Bytes) : Option (List Nat) :=
  match readIpv6 bs with
  | some (groups, []) => some groups
  | _ => none

def ipv4Octets (octets : List Nat) : Bytes := octets.map UInt8.ofNat

def ipv6Octets (groups : List Nat) : Bytes :=
  groups.flatMap fun group => [UInt8.ofNat (group / 256), UInt8.ofNat group]

def digitChar (n : Nat) : UInt8 := if n < 10 then UInt8.ofNat (48 + n) else UInt8.ofNat (87 + n % 16)

def digits (radix n : Nat) : Bytes :=
  if n = 0 then [48] else (Nat.digits radix n).reverse.map digitChar

def joinWith (separator : UInt8) : List Bytes → Bytes
  | [] => []
  | [piece] => piece
  | piece :: pieces => piece ++ separator :: joinWith separator pieces

def displayIpv4 (octets : Bytes) : Bytes :=
  joinWith 46 (octets.map fun octet => digits 10 octet.toNat)

def pairs : Bytes → List Nat
  | a :: b :: rest => (a.toNat * 256 + b.toNat) :: pairs rest
  | _ => []

structure Span where
  start : Nat
  len : Nat

def longestZeros : Nat → Span → Span → List Nat → Span
  | _, _, longest, [] => longest
  | index, current, longest, segment :: segments =>
    if segment = 0 then
      let current := if current.len = 0 then ⟨index, 1⟩ else ⟨current.start, current.len + 1⟩
      longestZeros (index + 1) current (if current.len > longest.len then current else longest)
        segments
    else longestZeros (index + 1) ⟨0, 0⟩ longest segments

def displaySegments (segments : List Nat) : Bytes := joinWith 58 (segments.map (digits 16))

def displayIpv6 (octets : Bytes) : Bytes :=
  let segments := pairs octets
  if octets.take 12 = [0, 0, 0, 0, 0, 0, 0, 0, 0, 0, 255, 255] then
    [58, 58, 102, 102, 102, 102, 58] ++ displayIpv4 (octets.drop 12)
  else
    let zeros := longestZeros 0 ⟨0, 0⟩ ⟨0, 0⟩ segments
    if zeros.len > 1 then
      displaySegments (segments.take zeros.start) ++ [58, 58] ++
        displaySegments (segments.drop (zeros.start + zeros.len))
    else displaySegments segments

theorem readIpv4Groups_length {n index : Nat} {rest : Bytes} {octets : List Nat}
    (h : readIpv4Groups n index bs = some (octets, rest)) : octets.length = n := by
  induction n generalizing index bs octets rest with
  | zero => rw [← (Prod.mk.inj (Option.some.inj h)).1]; rfl
  | succ n ih =>
    rw [readIpv4Groups] at h
    obtain ⟨⟨octet, after⟩, -, h⟩ := Option.bind_eq_some_iff.mp h
    obtain ⟨⟨others, after⟩, hothers, h⟩ := Option.bind_eq_some_iff.mp h
    rw [← (Prod.mk.inj (Option.some.inj h)).1, List.length_cons, ih hothers]

theorem parseIpv4_length {octets : List Nat} (h : parseIpv4 bs = some octets) :
    octets.length = 4 := by
  rw [parseIpv4] at h
  split_ifs at h
  split at h
  · rename_i found hread
    rw [← Option.some.inj h]
    exact readIpv4Groups_length hread
  · cases h

theorem readIpv6Groups_length {limit : Nat} (n index : Nat) (bs : Bytes) (hlimit : index + n = limit) :
    (readIpv6Groups limit n index bs).1.length ≤ n := by
  induction n generalizing index bs with
  | zero => exact le_refl 0
  | succ n ih =>
    rw [readIpv6Groups]
    dsimp only
    split
    · rename_i hembedded
      have hroom : index + 1 < limit := by
        by_contra hfull
        simp [hfull] at hembedded
      simp only [List.length_cons, List.length_nil]
      omega
    · split
      · exact Nat.zero_le _
      · rename_i group rest hgroup
        simp only [List.length_cons]
        have hrest := ih (index + 1) rest (by omega)
        omega

theorem parseIpv6_length {groups : List Nat} (h : parseIpv6 bs = some groups) :
    groups.length = 8 := by
  have hread : ∀ found rest, readIpv6 bs = some (found, rest) → found.length = 8 := by
    intro found rest h
    have hhead : (readIpv6Groups 8 8 0 bs).1.length ≤ 8 := readIpv6Groups_length 8 0 bs rfl
    rw [readIpv6] at h
    dsimp only at h
    split_ifs at h with hfull hembedded
    · rw [← (Prod.mk.inj (Option.some.inj h)).1, hfull]
    · obtain ⟨first, -, h⟩ := Option.bind_eq_some_iff.mp h
      obtain ⟨second, -, h⟩ := Option.bind_eq_some_iff.mp h
      have htail := readIpv6Groups_length (8 - ((readIpv6Groups 8 8 0 bs).1.length + 1)) 0 second
        (Nat.zero_add _)
      rw [← (Prod.mk.inj (Option.some.inj h)).1, List.length_append, List.length_append,
        List.length_replicate]
      omega
  rw [parseIpv6] at h
  split at h
  · rename_i found hfound
    rw [← Option.some.inj h]
    exact hread _ _ hfound
  · cases h

theorem ipv6Octets_length (groups : List Nat) : (ipv6Octets groups).length = 2 * groups.length := by
  rw [ipv6Octets, List.length_flatMap]
  simp [Nat.mul_comm]

def Ascii (bs : Bytes) : Prop := ∀ b ∈ bs, b < 0x80

theorem Ascii.valid (h : Ascii bs) : Utf8.valid bs = true := by
  have hrun : Utf8.run .start bs = some .start := by
    induction bs with
    | nil => rfl
    | cons b bs ih =>
      have hb : b < 0x80 := h b List.mem_cons_self
      simp only [Utf8.run, Utf8.next, Utf8.lead, hb, if_true, Option.bind_some]
      exact ih fun c hc => h c (List.mem_cons_of_mem b hc)
  simp [Utf8.valid, hrun]

theorem Ascii.append {xs ys : Bytes} (hx : Ascii xs) (hy : Ascii ys) : Ascii (xs ++ ys) := by
  intro b hb
  rcases List.mem_append.mp hb with hb | hb
  · exact hx b hb
  · exact hy b hb

theorem digitChar_ascii (n : Nat) : digitChar n < 0x80 := by
  unfold digitChar
  rw [UInt8.lt_iff_toNat_lt]
  split_ifs <;> simp [UInt8.toNat_ofNat'] <;> omega

theorem digits_ascii (radix n : Nat) : Ascii (digits radix n) := by
  unfold digits
  split_ifs with hn
  · intro b hb
    rw [List.mem_singleton.mp hb]
    decide
  · intro b hb
    obtain ⟨d, -, rfl⟩ := List.mem_map.mp hb
    exact digitChar_ascii d

theorem ascii_of_all (h : bs.all (· < 0x80) = true) : Ascii bs := by
  simpa [Ascii] using h

theorem joinWith_ascii {separator : UInt8} (hs : separator < 0x80) {pieces : List Bytes}
    (hp : ∀ p ∈ pieces, Ascii p) : Ascii (joinWith separator pieces) := by
  induction pieces with
  | nil => simp [joinWith, Ascii]
  | cons p ps ih =>
    have hhead : Ascii p := hp p List.mem_cons_self
    have htail := ih fun q hq => hp q (List.mem_cons_of_mem p hq)
    cases ps with
    | nil => exact hhead
    | cons q qs =>
      refine hhead.append ?_
      intro b hb
      rcases List.mem_cons.mp hb with rfl | hb
      · exact hs
      · exact htail b hb

theorem displayIpv4_ascii (octets : Bytes) : Ascii (displayIpv4 octets) := by
  refine joinWith_ascii (by decide) fun p hp => ?_
  obtain ⟨octet, -, rfl⟩ := List.mem_map.mp hp
  exact digits_ascii 10 _

theorem displaySegments_ascii (segments : List Nat) : Ascii (displaySegments segments) := by
  refine joinWith_ascii (by decide) fun p hp => ?_
  obtain ⟨segment, -, rfl⟩ := List.mem_map.mp hp
  exact digits_ascii 16 segment

theorem displayIpv6_ascii (octets : Bytes) : Ascii (displayIpv6 octets) := by
  simp only [displayIpv6]
  split_ifs
  · exact (ascii_of_all (by decide)).append (displayIpv4_ascii _)
  · exact ((displaySegments_ascii _).append (ascii_of_all (by decide))).append
      (displaySegments_ascii _)
  · exact displaySegments_ascii _

end InetAddress
