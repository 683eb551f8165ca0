import MonetdbAdbc.Library.Machine
import MonetdbAdbc.Library.Transition
import MonetdbAdbc.Status

namespace MonetdbAdbc.IngestMemory
open Machine Transition

def encodeStagingBytes : Nat := 16 * 1024 * 1024

def ingestReservationSourceBytes : Nat := 64 * 1024 * 1024

def ingestMemoryReservationBytes (physicalWindowBudget : Nat) : Nat :=
  saturatingAdd (saturatingMul (saturatingAdd physicalWindowBudget encodeStagingBytes) 2)
    ingestReservationSourceBytes

def ingestMemoryReservationFits (allowed current reserved requested : Nat) : Bool :=
  ((checkedAdd current reserved).bind fun total => checkedAdd total requested).any
    fun required => required ≤ allowed

structure Reading where
  limit : Nat
  current : Nat
  deriving DecidableEq, Repr

structure Call where
  bytes : Nat
  reading : Reading
  deriving DecidableEq, Repr

def Call.allowed (call : Call) : Nat := saturatingMul call.reading.limit 9 / 10

def Call.fits (call : Call) (reserved : Nat) : Bool :=
  ingestMemoryReservationFits call.allowed call.reading.current reserved call.bytes

def reservationError (call : Call) (reserved : Nat) : AdbcError where
  message := s!"ingest requires a {call.bytes}-byte memory reservation, but the cgroup has " ++
    s!"{call.reading.current} bytes in use, {reserved} bytes reserved by other ingests, and " ++
    s!"a {call.reading.limit}-byte limit"
  status := .internal
  sqlstate := some "HY001"

inductive Phase where
  | idle
  | loading (call : Call)
  | attempting (call : Call) (reserved : Nat)
  | returned (result : Except AdbcError Nat)

structure State where
  counter : Nat
  past : List Nat
  live : List Nat
  phases : Nat → Phase

def State.initial : State := ⟨0, [], [], fun _ => .idle⟩

-- A load, like the load of a failed exchange, may see any value the counter has held so far.
def State.observe (s : State) (age : Nat) : Option Nat := (s.counter :: s.past)[age]?

def State.goto (s : State) (caller : Nat) (phase : Phase) : State :=
  { s with phases := Function.update s.phases caller phase }

def State.reserve (s : State) (counter bytes : Nat) : State :=
  { s with counter := counter, past := s.counter :: s.past, live := bytes :: s.live }

def State.release (s : State) (bytes : Nat) : State :=
  if 0 < bytes then
    { s with
      counter := wrappingSub s.counter bytes
      past := s.counter :: s.past
      live := s.live.erase bytes }
  else { s with live := s.live.erase bytes }

inductive Event where
  | enter (caller physicalWindowBudget : Nat) (reading : Option Reading)
  | load (caller age : Nat)
  | attempt (caller : Nat) (spurious : Bool) (age : Nat)
  | drop (bytes : Nat)

def enter (s : State) (caller physicalWindowBudget : Nat) : Option Reading → State
  | none => { s with live := 0 :: s.live }.goto caller (.returned (.ok 0))
  | some reading =>
    s.goto caller (.loading ⟨ingestMemoryReservationBytes physicalWindowBudget, reading⟩)

def attempt (s : State) (caller : Nat) (call : Call) (reserved : Nat) (spurious : Bool)
    (age : Nat) : Option State :=
  if ¬call.fits reserved then
    some (s.goto caller (.returned (.error (reservationError call reserved))))
  else if s.counter = reserved ∧ ¬spurious then
    some ((s.reserve (saturatingAdd reserved call.bytes) call.bytes).goto caller
      (.returned (.ok call.bytes)))
  else (s.observe age).map fun updated => s.goto caller (.attempting call updated)

def step (s : State) : Event → Option State
  | .enter caller budget reading =>
    match s.phases caller with
    | .idle | .returned _ => some (enter s caller budget reading)
    | _ => none
  | .load caller age =>
    match s.phases caller with
    | .loading call =>
      (s.observe age).map fun reserved => s.goto caller (.attempting call reserved)
    | _ => none
  | .attempt caller spurious age =>
    match s.phases caller with
    | .attempting call reserved => attempt s caller call reserved spurious age
    | _ => none
  | .drop bytes => if bytes ∈ s.live then some (s.release bytes) else none

theorem Call.fits_iff (call : Call) (reserved : Nat) :
    call.fits reserved ↔
      call.reading.current + reserved + call.bytes ≤ usizeMax ∧
      call.reading.current + reserved + call.bytes ≤ call.allowed := by
  rw [fits, ingestMemoryReservationFits]
  by_cases htotal : call.reading.current + reserved ≤ usizeMax
  · rw [checkedAdd_eq_some.mpr ⟨htotal, rfl⟩, Option.bind_some, checkedAdd]
    split_ifs with hrequired
    · simp [hrequired]
    · simp [hrequired]
  · rw [checkedAdd, if_neg htotal, Option.bind_none]
    simp only [Option.any_none, Bool.false_eq_true, false_iff, not_and_or]
    omega

theorem Call.allowed_le (call : Call) : 10 * call.allowed ≤ 9 * call.reading.limit := by
  rw [allowed, saturatingMul]
  omega

section Steps
variable {s t : State} {call : Call} {caller : Nat} {spurious : Bool}

@[simp] theorem goto_live (s : State) (caller : Nat) (phase : Phase) :
    (s.goto caller phase).live = s.live := rfl

@[simp] theorem goto_phases_self (s : State) (caller : Nat) (phase : Phase) :
    (s.goto caller phase).phases caller = phase := Function.update_self ..

theorem attempt_cases {reserved age : Nat}
    (h : attempt s caller call reserved spurious age = some t) :
    (∃ error, t = s.goto caller (.returned (.error error))) ∨
    (∃ updated, t = s.goto caller (.attempting call updated)) ∨
    (s.counter = reserved ∧ call.fits reserved ∧
      t = (s.reserve (saturatingAdd reserved call.bytes) call.bytes).goto caller
        (.returned (.ok call.bytes))) := by
  rw [attempt] at h
  split_ifs at h with hfits hexchange
  · exact .inr (.inr ⟨hexchange.1, hfits, (Option.some.inj h).symm⟩)
  · obtain ⟨updated, -, rfl⟩ := Option.map_eq_some_iff.mp h
    exact .inr (.inl ⟨updated, rfl⟩)
  · exact .inl ⟨_, (Option.some.inj h).symm⟩

inductive Effect (s t : State) : Prop
  | none (counter : t.counter = s.counter) (live : t.live.sum = s.live.sum)
  | reserve (call : Call) (fits : call.fits s.counter)
    (counter : t.counter = saturatingAdd s.counter call.bytes)
    (live : t.live = call.bytes :: s.live)
  | release (bytes : Nat) (mem : bytes ∈ s.live) (released : t = s.release bytes)

theorem attempt_effect {reserved age : Nat}
    (h : attempt s caller call reserved spurious age = some t) : Effect s t := by
  rcases attempt_cases h with ⟨error, rfl⟩ | ⟨updated, rfl⟩ | ⟨rfl, hfits, rfl⟩
  · exact .none rfl rfl
  · exact .none rfl rfl
  · exact .reserve call hfits rfl rfl

theorem enter_effect (s : State) (caller budget : Nat) (reading : Option Reading) :
    Effect s (enter s caller budget reading) := by
  cases reading with
  | none => exact .none rfl (Nat.zero_add _)
  | some reading => exact .none rfl rfl

theorem step_effect {event : Event} (h : step s event = some t) : Effect s t := by
  cases event with
  | enter caller budget reading =>
    simp only [step] at h
    split at h
    · exact Option.some.inj h ▸ enter_effect s caller budget reading
    · exact Option.some.inj h ▸ enter_effect s caller budget reading
    · cases h
  | load caller age =>
    simp only [step] at h
    split at h
    · obtain ⟨reserved, -, rfl⟩ := Option.map_eq_some_iff.mp h
      exact .none rfl rfl
    · cases h
  | attempt caller spurious age =>
    simp only [step] at h
    split at h
    · exact attempt_effect h
    · cases h
  | drop bytes =>
    simp only [step] at h
    split_ifs at h with hmem
    exact .release bytes hmem (Option.some.inj h).symm

structure Accounted (s : State) : Prop where
  sum : s.counter = s.live.sum
  bounded : s.counter ≤ usizeMax

theorem saturatingAdd_of_fits {reserved : Nat} (h : call.fits reserved) :
    saturatingAdd reserved call.bytes = reserved + call.bytes := by
  have hbound := ((call.fits_iff reserved).mp h).1
  rw [saturatingAdd]
  omega

theorem release_live (s : State) (bytes : Nat) : (s.release bytes).live = s.live.erase bytes := by
  rw [State.release]
  split_ifs <;> rfl

theorem Accounted.le_counter (h : Accounted s) {bytes : Nat} (hmem : bytes ∈ s.live) :
    bytes ≤ s.counter := by
  rw [h.sum]
  exact List.le_sum_of_mem hmem

theorem Accounted.release_counter (h : Accounted s) {bytes : Nat} (hmem : bytes ∈ s.live) :
    (s.release bytes).counter = s.counter - bytes := by
  rw [State.release]
  split_ifs with hpos
  · exact wrappingSub_of_le (h.le_counter hmem) h.bounded
  · obtain rfl := Nat.eq_zero_of_not_pos hpos
    rfl

theorem Accounted.step (h : Accounted s) {event : Event} (hstep : step s event = some t) :
    Accounted t := by
  cases step_effect hstep with
  | none hcounter hlive => exact ⟨by rw [hcounter, hlive, h.sum], hcounter ▸ h.bounded⟩
  | reserve call hfits hcounter hlive =>
    have hbound := ((call.fits_iff s.counter).mp hfits).1
    rw [saturatingAdd_of_fits hfits] at hcounter
    refine ⟨?_, ?_⟩
    · rw [hcounter, hlive, List.sum_cons, h.sum, Nat.add_comm]
    · omega
  | release bytes hmem hreleased =>
    subst hreleased
    have hsum := List.sum_erase hmem
    have hcounter := h.release_counter hmem
    have hbounded := h.bounded
    have htotal := h.sum
    refine ⟨?_, ?_⟩
    · rw [release_live]
      omega
    · omega

theorem accounted_initial : Accounted .initial := ⟨rfl, Nat.zero_le _⟩

theorem accounted_exec {events : List Event} (h : exec step .initial events = some s) :
    Accounted s :=
  exec_invariant (fun _ _ _ hs hstep => hs.step hstep) accounted_initial h

theorem Accounted.reserved (h : Accounted s) {reserved age : Nat}
    (hstep : attempt s caller call reserved spurious age = some t)
    (hreturned : t.phases caller = .returned (.ok call.bytes)) :
    t.counter = s.counter + call.bytes ∧ t.live = call.bytes :: s.live ∧
      10 * (call.reading.current + t.live.sum) ≤ 9 * call.reading.limit := by
  rcases attempt_cases hstep with ⟨error, rfl⟩ | ⟨updated, rfl⟩ | ⟨rfl, hfits, rfl⟩
  · simp at hreturned
  · simp at hreturned
  · have hallowed := ((call.fits_iff s.counter).mp hfits).2
    have hlimit := call.allowed_le
    have hsum := h.sum
    refine ⟨saturatingAdd_of_fits hfits, rfl, ?_⟩
    simp only [goto_live, State.reserve, List.sum_cons]
    omega

end Steps

theorem reservations_accounted (events : List Event) (s : State)
    (hrun : exec step .initial events = some s) :
    s.counter = s.live.sum ∧ s.counter ≤ usizeMax ∧
    (∀ bytes t, step s (.drop bytes) = some t →
      bytes ≤ s.counter ∧ t.counter = s.counter - bytes ∧ t.live = s.live.erase bytes) ∧
    (∀ caller spurious age call reserved t, s.phases caller = .attempting call reserved →
      step s (.attempt caller spurious age) = some t →
      t.phases caller = .returned (.ok call.bytes) →
      t.counter = s.counter + call.bytes ∧ t.live = call.bytes :: s.live ∧
        10 * (call.reading.current + t.live.sum) ≤ 9 * call.reading.limit) := by
  have hs := accounted_exec hrun
  refine ⟨hs.sum, hs.bounded, ?_, ?_⟩
  · intro bytes t hstep
    simp only [step] at hstep
    split_ifs at hstep with hmem
    cases hstep
    exact ⟨hs.le_counter hmem, hs.release_counter hmem, release_live s bytes⟩
  · intro caller spurious age call reserved t hphase hstep hreturned
    simp only [step, hphase] at hstep
    exact hs.reserved hstep hreturned

def contendedRun : List Event :=
  [.enter 0 (2 ^ 27) (some ⟨2 ^ 33, 2 ^ 30⟩), .enter 1 (2 ^ 26) (some ⟨2 ^ 33, 2 ^ 31⟩),
    .load 0 0, .load 1 0, .attempt 0 true 0, .attempt 0 false 0, .attempt 1 false 0]

theorem contended_reservation_accounted :
    ∃ s t u : State, exec step .initial contendedRun = some s ∧
      step s (.attempt 1 false 0) = some t ∧
      step s (.drop (ingestMemoryReservationBytes (2 ^ 27))) = some u ∧
      s.counter = s.live.sum ∧
      u.counter = s.counter - ingestMemoryReservationBytes (2 ^ 27) ∧
      t.counter = s.counter + ingestMemoryReservationBytes (2 ^ 26) ∧
      10 * (2 ^ 31 + t.live.sum) ≤ 9 * 2 ^ 33 := by
  refine ⟨_, _, _, rfl, rfl, rfl, ?_⟩
  obtain ⟨hsum, -, hdrop, hreserve⟩ := reservations_accounted contendedRun _ rfl
  obtain ⟨hcounter, -, hadmitted⟩ := hreserve 1 false 0 _ _ _ rfl rfl rfl
  exact ⟨hsum, (hdrop _ _ rfl).2.1, hcounter, hadmitted⟩

end MonetdbAdbc.IngestMemory
