import MonetdbAdbc.Read.ReadWindow

namespace MonetdbAdbc
open Machine

def defaultReadWindowBytes : Nat := 64 * 1024 * 1024

def remoteReadWindowBytes : Nat := 128 * 1024 * 1024

def minReadWindowBytes : Nat := 1024 * 1024

def maxAutomaticReadGranuleBytes : Nat := 512 * 1024 * 1024

def remoteWriteWindowRttNanos : Nat := 5 * 1000 * 1000

def automaticReadWindowBytesForMemory (memoryLimit : Option Nat) (measuredRoundTripNanos : Nat) :
    Nat :=
  let target :=
    if measuredRoundTripNanos ≥ remoteWriteWindowRttNanos then remoteReadWindowBytes
    else defaultReadWindowBytes
  memoryLimit.elim target fun limit => min target (max (limit / 8) minReadWindowBytes)

def effectiveAutomaticReadWindowBytes (base : Nat) (fixedGranuleCapacity memoryLimit : Option Nat) :
    Nat :=
  let maximum := memoryLimit.elim maxAutomaticReadGranuleBytes fun limit =>
    min maxAutomaticReadGranuleBytes (max (limit / 8) minReadWindowBytes)
  (fixedGranuleCapacity.filter (· ≤ maximum)).elim base (max base)

-- The memory limit is read from the system twice, once for the base and once for the granule.
structure MemoryReadings where
  base : Option Nat
  granule : Option Nat

def effectiveReadWindowBytes (configuredWindowBytes : Option Nat) (measuredRoundTripNanos : Nat)
    (fixedGranuleCapacity : Option Nat) (memory : MemoryReadings) : Nat :=
  match configuredWindowBytes with
  | some base => base
  | none =>
    effectiveAutomaticReadWindowBytes
      (automaticReadWindowBytesForMemory memory.base measuredRoundTripNanos)
      fixedGranuleCapacity memory.granule

structure ReadWindowConfig where
  columns : List ResultColumn
  batchRows : Nat
  configuredWindowBytes : Option Nat
  measuredRoundTripNanos : Nat
  memory : MemoryReadings

namespace ReadWindowConfig
variable (config : ReadWindowConfig)

def fixedGranuleCapacity : Option Nat := ownedFrameCapacity config.columns exportGranuleRows

def windowBudgetBytes : Nat :=
  effectiveReadWindowBytes config.configuredWindowBytes config.measuredRoundTripNanos
    config.fixedGranuleCapacity config.memory

def scheduler : ReadWindowScheduler :=
  .new config.columns config.batchRows config.windowBudgetBytes

def FullGranuleFits : Prop :=
  ∃ capacity, config.fixedGranuleCapacity = some capacity ∧ capacity ≤ config.windowBudgetBytes

def HasVariableColumn : Prop := ∃ column ∈ config.columns, fixedWireWidth column.sqlType = none

end ReadWindowConfig

namespace ReadWindowScheduler

inductive Call where
  | nextRows (remaining : Nat)
  | observe (bytes rows : Nat)
  deriving DecidableEq, Repr

def call (s : ReadWindowScheduler) : Call → ReadWindowScheduler
  | .nextRows remaining => (s.nextRows remaining).2
  | .observe bytes rows => s.observe bytes rows

def run (s : ReadWindowScheduler) (calls : List Call) : ReadWindowScheduler := calls.foldl call s

def Call.asks : Call → Prop
  | .nextRows remaining => 1 ≤ remaining
  | .observe _ _ => True

def Call.observedRows : Call → Nat
  | .nextRows _ => 0
  | .observe _ rows => rows

def observedTotal (calls : List Call) : Nat := (calls.map Call.observedRows).sum

def lastRequest (s : ReadWindowScheduler) : Option Nat → List Call → Option Nat
  | last, [] => last
  | _, .nextRows remaining :: calls =>
    lastRequest (s.nextRows remaining).2 (some (s.nextRows remaining).1) calls
  | last, .observe bytes rows :: calls => lastRequest (s.observe bytes rows) last calls

def windowTarget (s : ReadWindowScheduler) : Nat :=
  let target := max (max (s.windowBudgetBytes / s.estimatedBytesPerRow) 1)
    (if s.fullGranuleFits then exportGranuleRows else 1)
  match s.previousRows with
  | none => min target (s.initialRowsLimit.getD usizeMax)
  | some previous => min target (saturatingMul previous maxReadWindowGrowth)

section Alignment

theorem exportAlignmentRows_isGreatest {target : Nat} (h : 0 < target) :
    IsGreatest {rows | (∃ k, rows = 2 ^ k) ∧ rows ≤ min target exportGranuleRows}
      (exportAlignmentRows target) := by
  have hpos : 0 < exportGranuleRows := by decide
  have hmax : max 1 (min target exportGranuleRows) = min target exportGranuleRows := by omega
  have hne : min target exportGranuleRows ≠ 0 := by omega
  rw [exportAlignmentRows, hmax]
  refine ⟨⟨⟨_, rfl⟩, Nat.log2_self_le hne⟩, ?_⟩
  rintro rows ⟨⟨k, rfl⟩, hle⟩
  exact Nat.pow_le_pow_right (by decide) ((Nat.le_log2 hne).mpr hle)

variable {s : ReadWindowScheduler}

theorem adaptiveRows_eq (s : ReadWindowScheduler) :
    s.adaptiveRows =
      max (saturatingAdd s.observedRows s.windowTarget -
        saturatingAdd s.observedRows s.windowTarget % exportAlignmentRows s.windowTarget -
        s.observedRows) 1 := rfl

theorem adaptiveRows_le (htarget : 0 < s.windowTarget) : s.adaptiveRows ≤ s.windowTarget := by
  rw [adaptiveRows_eq, saturatingAdd]
  omega

-- The alignment is at most the target, so rounding the end down stays beyond the position.
theorem adaptiveRows_aligned (htarget : 0 < s.windowTarget)
    (hfar : s.observedRows + exportGranuleRows ≤ usizeMax) :
    exportAlignmentRows s.windowTarget ∣ s.observedRows + s.adaptiveRows ∧
      s.observedRows + s.adaptiveRows ≤ usizeMax := by
  obtain ⟨⟨⟨k, hk⟩, hle⟩, -⟩ := exportAlignmentRows_isGreatest htarget
  have hpos : 0 < exportAlignmentRows s.windowTarget := by
    rw [hk]
    exact Nat.two_pow_pos k
  have hmod := Nat.mod_lt (saturatingAdd s.observedRows s.windowTarget) hpos
  have hdvd := Nat.dvd_sub_mod (n := exportAlignmentRows s.windowTarget)
    (saturatingAdd s.observedRows s.windowTarget)
  have hend : s.observedRows + exportAlignmentRows s.windowTarget ≤
      saturatingAdd s.observedRows s.windowTarget := by
    rw [saturatingAdd]
    omega
  have hmax : saturatingAdd s.observedRows s.windowTarget ≤ usizeMax := Nat.min_le_right _ _
  have hsum : s.observedRows + s.adaptiveRows = saturatingAdd s.observedRows s.windowTarget -
      saturatingAdd s.observedRows s.windowTarget % exportAlignmentRows s.windowTarget := by
    rw [adaptiveRows_eq]
    omega
  rw [hsum]
  exact ⟨hdvd, by omega⟩

end Alignment

section Runs
variable {config : ReadWindowConfig} {s : ReadWindowScheduler} {last : Option Nat} {total : Nat}

structure Configured (config : ReadWindowConfig) (s : ReadWindowScheduler) (last : Option Nat)
    (total : Nat) : Prop where
  exact : s.exactBatchRows = none ↔ config.batchRows = 0
  budget : s.windowBudgetBytes = config.windowBudgetBytes
  granule : s.fullGranuleFits = true ↔ config.FullGranuleFits
  limit : s.initialRowsLimit = some 1 ∨
    s.initialRowsLimit = none ∧ ¬config.HasVariableColumn
  previous : s.previousRows = last
  previous_pos : ∀ rows, last = some rows → 0 < rows
  observed : s.observedRows = min total usizeMax

theorem ownedCapacityFrom_variable {columns : List ResultColumn} {column : ResultColumn}
    (hmem : column ∈ columns) (hvariable : fixedWireWidth column.sqlType = none)
    (rows capacity : Nat) : ownedCapacityFrom rows capacity columns = none := by
  induction columns generalizing capacity with
  | nil => simp at hmem
  | cons head columns ih =>
    rw [ownedCapacityFrom]
    rcases List.mem_cons.mp hmem with rfl | hmem
    · rw [hvariable]
      rfl
    · simp [ih hmem]

theorem configured_scheduler (config : ReadWindowConfig) :
    Configured config config.scheduler none 0 where
  exact := by
    simp only [ReadWindowConfig.scheduler, new]
    split_ifs with hpos
    · simp
      omega
    · simp
      omega
  budget := rfl
  granule := by
    simp [ReadWindowConfig.scheduler, new, ReadWindowConfig.FullGranuleFits,
      ReadWindowConfig.fixedGranuleCapacity, Option.any_eq_true]
  limit := by
    simp only [ReadWindowConfig.scheduler, new]
    split_ifs with hnone
    · exact .inl rfl
    · refine .inr ⟨rfl, ?_⟩
      rintro ⟨column, hmem, hvariable⟩
      refine hnone ?_
      simp [ownedFrameCapacity, ownedCapacityFrom_variable hmem hvariable]
  previous := rfl
  previous_pos := by simp
  observed := rfl

theorem Configured.nextRows (h : Configured config s last total) {remaining : Nat}
    (hremaining : 1 ≤ remaining) :
    Configured config (s.nextRows remaining).2 (some (s.nextRows remaining).1) total where
  exact := h.exact
  budget := h.budget
  granule := h.granule
  limit := h.limit
  previous := rfl
  previous_pos _ hrows := Option.some.inj hrows ▸ s.requestedRows_pos hremaining
  observed := h.observed

theorem Configured.observe (h : Configured config s last total) (bytes rows : Nat) :
    Configured config (s.observe bytes rows) last (total + rows) := by
  have hobserved : saturatingAdd s.observedRows rows = min (total + rows) usizeMax := by
    rw [saturatingAdd, h.observed]
    omega
  rw [ReadWindowScheduler.observe]
  split_ifs
  · exact ⟨h.exact, h.budget, h.granule, h.limit, h.previous, h.previous_pos, hobserved⟩
  · exact ⟨h.exact, h.budget, h.granule, h.limit, h.previous, h.previous_pos, hobserved⟩

theorem Configured.run (h : Configured config s last total) {calls : List Call}
    (hasks : ∀ call ∈ calls, call.asks) :
    Configured config (s.run calls) (lastRequest s last calls) (total + observedTotal calls) := by
  induction calls generalizing s last total with
  | nil => exact h
  | cons call calls ih =>
    obtain ⟨hcall, hrest⟩ := List.forall_mem_cons.mp hasks
    have htotal : total + observedTotal (call :: calls) =
        total + call.observedRows + observedTotal calls := by
      simp only [observedTotal, List.map_cons, List.sum_cons, Nat.add_assoc]
    rw [htotal]
    cases call with
    | nextRows remaining => exact ih (h.nextRows hcall) hrest
    | observe bytes rows => exact ih (h.observe bytes rows) hrest

theorem Configured.windowTarget_pos (h : Configured config s last total) :
    0 < s.windowTarget := by
  rw [windowTarget, h.previous]
  cases hlast : last with
  | none =>
    rcases h.limit with hlimit | ⟨hlimit, -⟩
    · simp only [hlimit, Option.getD_some]
      omega
    · simp only [hlimit, Option.getD_none, usizeMax]
      omega
  | some previous =>
    have hpos := h.previous_pos previous hlast
    simp only [saturatingMul, maxReadWindowGrowth, usizeMax]
    omega

theorem Configured.windowTarget_first (h : Configured config s none total)
    (hvariable : config.HasVariableColumn) : s.windowTarget ≤ 1 := by
  rw [windowTarget, h.previous]
  rcases h.limit with hlimit | ⟨-, hno⟩
  · simp only [hlimit, Option.getD_some]
    omega
  · exact absurd hvariable hno

theorem Configured.windowTarget_growth {previous : Nat}
    (h : Configured config s (some previous) total) : s.windowTarget ≤ 4 * previous := by
  rw [windowTarget, h.previous]
  simp only [saturatingMul, maxReadWindowGrowth]
  omega

theorem windowTarget_budget (hgranule : s.fullGranuleFits = false) :
    s.windowTarget ≤ max 1 (s.windowBudgetBytes / s.estimatedBytesPerRow) := by
  rw [windowTarget, hgranule]
  cases s.previousRows with
  | none | some previous =>
    simp only [Bool.false_eq_true, if_false]
    omega

theorem requestedRows_adaptive (hexact : s.exactBatchRows = none) (remaining : Nat) :
    s.requestedRows remaining = min s.adaptiveRows (min remaining usizeMax) := by
  rw [requestedRows, hexact]

end Runs

theorem read_windows_safe_and_aligned (config : ReadWindowConfig) (calls : List Call)
    (remaining : Nat) (hasks : ∀ call ∈ calls, call.asks) (hremaining : 1 ≤ remaining)
    (hfar : observedTotal calls + exportGranuleRows ≤ usizeMax) :
    let s := config.scheduler.run calls
    let last := lastRequest config.scheduler none calls
    let rows := (s.nextRows remaining).1
    1 ≤ rows ∧ rows ≤ remaining ∧ s.observedRows = observedTotal calls ∧
    (config.batchRows = 0 →
      (last = none → config.HasVariableColumn → rows = 1) ∧
      (∀ previous, last = some previous → rows ≤ 4 * previous) ∧
      (¬config.FullGranuleFits →
        rows ≤ max 1 (s.windowBudgetBytes / s.estimatedBytesPerRow)) ∧
      (rows ≠ remaining → exportAlignmentRows s.windowTarget ∣ s.observedRows + rows) ∧
      IsGreatest {rows | (∃ k, rows = 2 ^ k) ∧ rows ≤ min s.windowTarget exportGranuleRows}
        (exportAlignmentRows s.windowTarget)) := by
  intro s last rows
  have hs : Configured config s last (0 + observedTotal calls) :=
    (configured_scheduler config).run hasks
  have hpos : 1 ≤ rows := s.requestedRows_pos hremaining
  have htarget := hs.windowTarget_pos
  have hobserved : s.observedRows = observedTotal calls := by
    rw [hs.observed]
    omega
  refine ⟨hpos, s.requestedRows_le remaining, hobserved, fun hadaptive => ?_⟩
  have hrows : rows = min s.adaptiveRows (min remaining usizeMax) :=
    requestedRows_adaptive (hs.exact.mpr hadaptive) remaining
  have hle : rows ≤ s.windowTarget := by
    have hle := adaptiveRows_le htarget
    omega
  refine ⟨?_, ?_, ?_, ?_, exportAlignmentRows_isGreatest htarget⟩
  · intro hlast hvariable
    rw [hlast] at hs
    have hfirst := hs.windowTarget_first hvariable
    omega
  · intro previous hlast
    rw [hlast] at hs
    exact hle.trans hs.windowTarget_growth
  · intro hgranule
    have hfalse : s.fullGranuleFits = false := by
      simpa using mt hs.granule.mp hgranule
    exact hle.trans (windowTarget_budget hfalse)
  · intro hmore
    obtain ⟨haligned, hinside⟩ := adaptiveRows_aligned htarget (by rwa [hobserved])
    have hsame : rows = s.adaptiveRows := by omega
    rwa [hsame]

def nameConfig : ReadWindowConfig := ⟨[⟨"name", .varchar 20⟩], 0, none, 0, ⟨none, none⟩⟩

theorem name_windows_start_small :
    ((nameConfig.scheduler.run []).nextRows 1000).1 = 1 ∧
      ((nameConfig.scheduler.run [.nextRows 1000, .observe 20 1]).nextRows 999).1 ≤ 4 := by
  have hvariable : nameConfig.HasVariableColumn := ⟨⟨"name", .varchar 20⟩, by decide, rfl⟩
  have hfirst := read_windows_safe_and_aligned nameConfig [] 1000 (by simp) (by decide) (by decide)
  have hsecond := read_windows_safe_and_aligned nameConfig [.nextRows 1000, .observe 20 1] 999
    (by simp [Call.asks]) (by decide) (by decide)
  exact ⟨(hfirst.2.2.2 rfl).1 rfl hvariable, (hsecond.2.2.2 rfl).2.1 1 rfl⟩

end ReadWindowScheduler

end MonetdbAdbc
