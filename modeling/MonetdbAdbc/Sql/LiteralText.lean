import MonetdbAdbc.Library.Iso8601
import MonetdbAdbc.Sql.Literal

namespace MonetdbAdbc.Sql
open LittleEndian Utf8 AsciiNumber Text TextFields Iso8601

inductive SqlValue where
  | number (value : Int)
  | text (value : Bytes)
  | bytes (value : Bytes)
  deriving DecidableEq, Repr

section Readers

-- The digits with the point scale places from the right, as the integer they make without it.
def readScaled (scale : Nat) (text : Bytes) : Option Nat :=
  if scale = 0 then parseDigits text
  else do
    let (whole, fraction) ← cut 46 text
    if whole ≠ [] ∧ fraction.length = scale then parseDigits (whole ++ fraction) else none

-- Whole seconds and an optional fraction of three digits, in milliseconds.
def readSeconds (readWhole : Bytes → Option Nat) (text : Bytes) : Option Nat :=
  match cut 46 text with
  | none => (readWhole text).map (· * 1000)
  | some (whole, fraction) => do
    let seconds ← readWhole whole
    let millis ← readExactly 3 fraction
    some (seconds * 1000 + millis)

def readDayClock (text : Bytes) : Option Nat := do
  let (days, rest) ← cut 32 text
  let (hours, rest) ← cut 58 rest
  let (minutes, rest) ← cut 58 rest
  let days ← parseDigits days
  let hours ← readExactly 2 hours
  let minutes ← readExactly 2 minutes
  let millis ← readSeconds (readExactly 2) rest
  if hours < 24 ∧ minutes < 60 ∧ millis < 60000 then
    some (((days * 24 + hours) * 60 + minutes) * 60000 + millis)
  else none

def readUuid (text : Bytes) : Option Bytes := do
  let (first, rest) ← cut 45 text
  let (second, rest) ← cut 45 rest
  let (third, rest) ← cut 45 rest
  let (fourth, fifth) ← cut 45 rest
  if [first, second, third, fourth, fifth].map List.length = [8, 4, 4, 4, 12] then
    readHex (first ++ second ++ third ++ fourth ++ fifth)
  else none

def readNumber (opening closing : String) (read : Bytes → Option Int) (text : Bytes) :
    Option SqlValue := do
  let body ← within (ascii opening) (ascii closing) text
  let value ← read body
  some (.number value)

def readValue : MonetType → Bytes → Option SqlValue
  | .decimal _ scale, text => (signed (readScaled scale) text).map .number
  | .hugeInt, text => (signed (readScaled 0) text).map .number
  | .time, text => readNumber "TIME '" "'" (fun body => (readClock body).map (↑)) text
  | .timeTz, text => readNumber "TIMETZ '" "+00:00'" (fun body => (readClock body).map (↑)) text
  | .secInterval, text =>
    readNumber "INTERVAL '" "' SECOND" (signed (readSeconds parseDigits)) text
  | .dayInterval, text => readNumber "INTERVAL '" "' DAY TO SECOND" (signed readDayClock) text
  | .blob, text => do
    let body ← within (ascii "BLOB '") (ascii "'") text
    let value ← readHex body
    some (.bytes value)
  | .uuid, text => do
    let body ← within (ascii "UUID '") (ascii "'") text
    let value ← readUuid body
    some (.bytes value)
  | .varchar _, text => do
    let body ← within (ascii "R'") (ascii "'") text
    let value ← undoubled 39 body
    some (.text value)
  | _, _ => none

end Readers

section Decimals

theorem decimalDigits_eq {scale : Nat} (hscale : 0 < scale) (n : Nat) :
    decimalDigits scale (decimal n) =
      (padded (scale + 1) n).take ((padded (scale + 1) n).length - scale) ++
        46 :: (padded (scale + 1) n).drop ((padded (scale + 1) n).length - scale) := by
  rw [decimalDigits, if_pos hscale]
  have hdigits : (if (decimal n).length ≤ scale then
      List.replicate (scale + 1 - (decimal n).length) 48 ++ decimal n else decimal n) =
      padded (scale + 1) n := by
    rw [padded]
    split_ifs with hshort
    · rfl
    · have hzero : scale + 1 - (decimal n).length = 0 := by omega
      rw [hzero, List.replicate_zero, List.nil_append]
  simp only [hdigits]

theorem readScaled_decimalDigits (scale n : Nat) :
    readScaled scale (decimalDigits scale (decimal n)) = some n := by
  rcases Nat.eq_zero_or_pos scale with rfl | hscale
  · rw [readScaled, if_pos rfl, decimalDigits, if_neg (lt_irrefl 0), parseDigits_decimal]
  · have hlength := le_padded_length (scale + 1) n
    have hdigits := padded_isDigit (scale + 1) n
    have hpoint : 46 ∉ (padded (scale + 1) n).take ((padded (scale + 1) n).length - scale) :=
      notMem_of_isDigit (fun b hb => hdigits b (List.mem_of_mem_take hb)) notDigit_point
    have hwhole : (padded (scale + 1) n).take ((padded (scale + 1) n).length - scale) ≠ [] := by
      intro hnil
      have hzero := congrArg List.length hnil
      rw [List.length_take, List.length_nil] at hzero
      omega
    have hfraction : ((padded (scale + 1) n).drop ((padded (scale + 1) n).length - scale)).length =
        scale := by
      rw [List.length_drop]
      omega
    rw [decimalDigits_eq hscale, readScaled, if_neg (by omega), cut_append hpoint, Option.bind_eq_bind,
      Option.bind_some]
    simp only [hwhole, hfraction, ne_eq, not_false_eq_true, and_self, if_true,
      List.take_append_drop, parseDigits_padded]

theorem head_ne_of_isDigit {text : Bytes} (h : ∀ b ∈ text, IsDigit b) : text.head? ≠ some 45 := by
  intro hhead
  exact notDigit_dash (h 45 (List.mem_of_mem_head? hhead))

theorem decimalDigits_head (scale n : Nat) :
    (decimalDigits scale (decimal n)).head? ≠ some 45 := by
  rcases Nat.eq_zero_or_pos scale with rfl | hscale
  · rw [decimalDigits, if_neg (lt_irrefl 0)]
    exact head_ne_of_isDigit (decimal_isDigit n)
  · rw [decimalDigits_eq hscale]
    intro hhead
    rcases List.mem_append.mp (List.mem_of_mem_head? hhead) with hmem | hmem
    · exact notDigit_dash (padded_isDigit _ n 45 (List.mem_of_mem_take hmem))
    · rcases List.mem_cons.mp hmem with heq | hmem
      · exact absurd heq (by decide)
      · exact notDigit_dash (padded_isDigit _ n 45 (List.mem_of_mem_drop hmem))

theorem readDecimal_decimalLiteral {scale : Int} (hscale : 0 ≤ scale) (value : Int) :
    ∃ text, decimalLiteral value scale = .ok text ∧
      signed (readScaled scale.toNat) text = some value := by
  refine ⟨_, if_neg (by omega), ?_⟩
  exact signed_withSign (readScaled_decimalDigits _ _) (decimalDigits_head _ _)

end Decimals

section Intervals

theorem notDigit_space : ¬IsDigit 32 := by
  unfold IsDigit
  decide

theorem readSeconds_fraction {readWhole : Bytes → Option Nat} {whole : Bytes} {seconds millis : Nat}
    (hdigits : ∀ b ∈ whole, IsDigit b) (hwhole : readWhole whole = some seconds)
    (hmillis : millis < 1000) :
    readSeconds readWhole (whole ++ intervalFraction millis) = some (seconds * 1000 + millis) := by
  have hpoint := notMem_of_isDigit hdigits notDigit_point
  rw [intervalFraction]
  split_ifs with hzero
  · rw [List.append_nil, hzero, add_zero, readSeconds, cut_none hpoint]
    simp only [hwhole, Option.map_some]
  · simp only [readSeconds, cut_append hpoint, hwhole, Option.bind_eq_bind, Option.bind_some]
    rw [readExactly_padded (by decide) (by omega), Option.bind_some]

theorem readSeconds_durationText (absolute : Nat) :
    readSeconds parseDigits (decimal (absolute / 1000) ++ intervalFraction (absolute % 1000)) =
      some absolute := by
  have hsum : absolute / 1000 * 1000 + absolute % 1000 = absolute := by omega
  rw [readSeconds_fraction (decimal_isDigit _) (parseDigits_decimal _) (by omega), hsum]

theorem readDayClock_dayClock (absolute : Nat) : readDayClock (dayClock absolute) = some absolute := by
  have hsum : ((absolute / 1000 / 86400 * 24 + absolute / 1000 / 3600 % 24) * 60 +
      absolute / 1000 / 60 % 60) * 60000 + (absolute / 1000 % 60 * 1000 + absolute % 1000) =
      absolute := by omega
  have hspace := notMem_of_isDigit (decimal_isDigit (absolute / 1000 / 86400)) notDigit_space
  simp only [dayClock, List.append_assoc, List.cons_append, readDayClock, cut_append hspace,
    cut_padded notDigit_colon, Option.bind_eq_bind, Option.bind_some, parseDigits_decimal]
  rw [readExactly_padded (by decide) (by omega), readExactly_padded (by decide) (by omega),
    readSeconds_fraction (padded_isDigit _ _) (readExactly_padded (by decide) (by omega)) (by omega)]
  simp only [Option.bind_some]
  rw [if_pos (by omega), hsum]

theorem head_append_ne {text rest : Bytes} (hne : text ≠ []) (h : ∀ b ∈ text, IsDigit b) :
    (text ++ rest).head? ≠ some 45 := by
  rw [List.head?_append_of_ne_nil _ hne]
  exact head_ne_of_isDigit h

theorem readNumber_eq {opening closing : String} {read : Bytes → Option Int} {body : Bytes}
    {value : Int} (h : read body = some value) :
    readNumber opening closing read (ascii opening ++ body ++ ascii closing) =
      some (.number value) := by
  rw [readNumber, within_append, Option.bind_eq_bind, Option.bind_some, h]
  rfl

theorem readValue_durationLiteral {unit : TimeUnit} {value : BitVec 64} {millis : Int}
    (h : durationMillis unit value = .ok millis) :
    ∃ text, durationLiteral unit value = .ok text ∧
      readValue .secInterval text = some (.number millis) := by
  rw [durationLiteral, h]
  refine ⟨_, rfl, readNumber_eq (signed_withSign (readSeconds_durationText _) ?_)⟩
  exact head_append_ne (decimal_ne_nil _) (decimal_isDigit _)

theorem readValue_dayIntervalLiteral {unit : TimeUnit} {value : BitVec 64} {millis : Int}
    (h : durationMillis unit value = .ok millis) :
    ∃ text, dayIntervalLiteral unit value = .ok text ∧
      readValue .dayInterval text = some (.number millis) := by
  rw [dayIntervalLiteral, h]
  refine ⟨_, rfl, readNumber_eq (signed_withSign (readDayClock_dayClock _) ?_)⟩
  simp only [dayClock, List.append_assoc]
  exact head_append_ne (decimal_ne_nil _) (decimal_isDigit _)

end Intervals

section Bytes

theorem readValue_blobLiteral (value : Bytes) :
    readValue .blob (blobLiteral value) = some (.bytes value) := by
  rw [readValue, blobLiteral, show ([39] : Bytes) = ascii "'" from rfl, within_append,
    Option.bind_eq_bind, Option.bind_some, readHex_hexText]
  rfl

theorem uuidFrom_groups (byte : Fin 16 → UInt8) :
    uuidFrom 0 (List.ofFn byte) =
      hexText [byte 0, byte 1, byte 2, byte 3] ++ 45 :: (hexText [byte 4, byte 5] ++
        45 :: (hexText [byte 6, byte 7] ++ 45 :: (hexText [byte 8, byte 9] ++
          45 :: hexText [byte 10, byte 11, byte 12, byte 13, byte 14, byte 15]))) := rfl

theorem readUuid_uuidFrom {value : Bytes} (h : value.length = 16) :
    readUuid (uuidFrom 0 value) = some value := by
  obtain ⟨byte, rfl⟩ : ∃ byte : Fin 16 → UInt8, value = List.ofFn byte := by
    refine ⟨fun i => value.get (i.cast h.symm), List.ext_getElem (by simp [h]) ?_⟩
    intro i _ _
    rw [List.getElem_ofFn]
    rfl
  rw [uuidFrom_groups]
  simp only [readUuid, cut_append (dash_notMem_hexText _), Option.bind_eq_bind, Option.bind_some]
  refine (if_pos rfl).trans ?_
  rw [← hexText_append, ← hexText_append, ← hexText_append, ← hexText_append, readHex_hexText]
  rfl

theorem readValue_uuidLiteral {value : Bytes} (h : value.length = 16) :
    readValue .uuid (uuidLiteral value) = some (.bytes value) := by
  rw [readValue, uuidLiteral, show ([39] : Bytes) = ascii "'" from rfl, within_append,
    Option.bind_eq_bind, Option.bind_some, readUuid_uuidFrom h]
  rfl

theorem readValue_quoteString {value : Str} (h : 0 ∉ value.bytes) (width : Nat) :
    ∃ text, quoteString value = .ok text ∧
      readValue (.varchar width) text = some (.text value.bytes) := by
  refine ⟨_, if_neg (by simpa using h), ?_⟩
  rw [readValue, quoteRawString, show ([39] : Bytes) = ascii "'" from rfl, within_append,
    Option.bind_eq_bind, Option.bind_some, undoubled_doubled]
  rfl

end Bytes

end MonetdbAdbc.Sql
