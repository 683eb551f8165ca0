import MonetdbAdbc.Driver.PreparedCache
import MonetdbAdbc.Library.Recency

namespace MonetdbAdbc.Driver
open LittleEndian Sql Machine Recency

inductive CacheCall where
  | get (query : Bytes)
  | prepareDecision (query : Bytes) (threshold : Nat) (request : PrepareRequest)
  | insert (query : Bytes) (candidate : PreparedEntry)
  | insertLiteral (query : Bytes) (candidate : AdbcError)
  | replacePreparedWithLiteral (query : Bytes) (id : Nat) (candidate : AdbcError)
  | removeIfId (query : Bytes) (id : Nat)
  | clear
  | setCapacity (capacity : Nat) (positive : 0 < capacity)

def CacheCall.apply (cache : PreparedCache) : CacheCall → PreparedCache
  | .get query => (cache.get query).2
  | .prepareDecision query threshold request => (cache.prepareDecision query threshold request).2
  | .insert query candidate => (cache.insert query candidate).2
  | .insertLiteral query candidate => (cache.insertLiteral query candidate).2
  | .replacePreparedWithLiteral query id candidate =>
    (cache.replacePreparedWithLiteral query id candidate).2
  | .removeIfId query id => cache.removeIfId query id
  | .clear => cache.clear
  | .setCapacity capacity positive => cache.setCapacity capacity positive

abbrev CacheView := List (Bytes × PrepareOutcome)

inductive CacheEffect where
  | keep
  | write (key : Bytes) (outcome : PrepareOutcome)
  | drop (key : Bytes)
  | clear
  deriving DecidableEq, Repr

def CacheEffect.run (view : CacheView) : CacheEffect → CacheView
  | .keep => view
  | .write key outcome => (key, outcome) :: view.filter (·.1 ≠ key)
  | .drop key => view.filter (·.1 ≠ key)
  | .clear => []

namespace PreparedCache

def outcomeOf (cache : PreparedCache) (key : Bytes) : Option PrepareOutcome :=
  CacheEntries.outcome cache.entries key

def view (cache : PreparedCache) : CacheView := cache.entries.map fun entry => (entry.1, entry.2.outcome)

def keys (cache : PreparedCache) : List Bytes := cache.view.map Prod.fst

end PreparedCache

namespace CacheCall

def decisionEffect (key : Bytes) (threshold : Nat) (request : PrepareRequest) :
    Option PrepareOutcome → CacheEffect
  | some (.deferred executions) =>
    match request with
    | .declare => .write key (.deferred executions)
    | .execute =>
      if threshold = 0 ∨ executions + 1 < threshold then .write key (.deferred (executions + 1))
      else .drop key
    | .force => .drop key
  | some outcome => .write key outcome
  | none =>
    if request ≠ .force ∧ threshold ≠ 1 then
      .write key (.deferred (if request = .execute then 1 else 0))
    else .keep

def effect (cache : PreparedCache) : CacheCall → CacheEffect
  | .get query =>
    match cache.outcomeOf (normalizePreparedQuery query) with
    | none => .keep
    | some outcome => .write (normalizePreparedQuery query) outcome
  | .prepareDecision query threshold request =>
    decisionEffect (normalizePreparedQuery query) threshold request
      (cache.outcomeOf (normalizePreparedQuery query))
  | .insert query candidate =>
    match cache.outcomeOf (normalizePreparedQuery query) with
    | some (.prepared existing) => .write (normalizePreparedQuery query) (.prepared existing)
    | _ => .write (normalizePreparedQuery query) (.prepared candidate)
  | .insertLiteral query candidate =>
    match cache.outcomeOf (normalizePreparedQuery query) with
    | some (.prepared existing) => .write (normalizePreparedQuery query) (.prepared existing)
    | some (.literal existing) => .write (normalizePreparedQuery query) (.literal existing)
    | _ => .write (normalizePreparedQuery query) (.literal candidate)
  | .replacePreparedWithLiteral query id candidate =>
    match cache.outcomeOf (normalizePreparedQuery query) with
    | some (.literal _) => .keep
    | some (.prepared entry) =>
      if entry.id ≠ id then .keep else .write (normalizePreparedQuery query) (.literal candidate)
    | _ => .write (normalizePreparedQuery query) (.literal candidate)
  | .removeIfId query id =>
    match cache.outcomeOf (normalizePreparedQuery query) with
    | some (.prepared entry) =>
      if entry.id = id then .drop (normalizePreparedQuery query) else .keep
    | _ => .keep
  | .clear => .clear
  | .setCapacity _ _ => .keep

def capacityAfter (cache : PreparedCache) : CacheCall → Nat
  | .setCapacity capacity _ => capacity
  | _ => cache.capacity

def uses (cache : PreparedCache) : CacheCall → Nat
  | .get _ | .prepareDecision _ _ _ => 1
  | .insert query _ =>
    match cache.outcomeOf (normalizePreparedQuery query) with
    | some (.prepared _) => 1
    | _ => 2
  | .insertLiteral query _ =>
    match cache.outcomeOf (normalizePreparedQuery query) with
    | some (.prepared _) | some (.literal _) => 1
    | _ => 2
  | .replacePreparedWithLiteral query id _ =>
    match cache.outcomeOf (normalizePreparedQuery query) with
    | some (.literal _) => 0
    | some (.prepared entry) => if entry.id ≠ id then 0 else 1
    | _ => 1
  | .removeIfId _ _ | .clear | .setCapacity _ _ => 0

def usesKeys (cache : PreparedCache) : CacheCall → List Bytes
  | .get query | .prepareDecision query _ _ | .insert query _ | .insertLiteral query _ =>
    [normalizePreparedQuery query]
  | .replacePreparedWithLiteral query id candidate =>
    match effect cache (.replacePreparedWithLiteral query id candidate) with
    | .write key _ => [key]
    | _ => []
  | .removeIfId _ _ | .clear | .setCapacity _ _ => []

-- The lookup inside insert and insert_literal normalizes a key that is already normalized.
def Settled : CacheCall → Prop
  | .insert query _ | .insertLiteral query _ =>
    normalizePreparedQuery (normalizePreparedQuery query) = normalizePreparedQuery query
  | _ => True

end CacheCall

structure Sorted (cache : PreparedCache) : Prop where
  decreasing : cache.entries.Pairwise fun a b => b.2.lastUsed < a.2.lastUsed
  bounded : ∀ entry ∈ cache.entries, entry.2.lastUsed ≤ cache.useCounter
  nodup : (cache.entries.map Prod.fst).Nodup
  counted : ∀ entry ∈ cache.entries, ∀ executions, entry.2.outcome = .deferred executions →
    executions ≤ cache.useCounter

namespace CacheEntries

theorem remove_eq_self {entries : CacheEntries} {key : Bytes} (h : key ∉ entries.map Prod.fst) :
    remove entries key = entries := by
  rw [remove, List.filter_eq_self]
  intro entry hentry
  simpa using fun heq : entry.1 = key => h (heq ▸ List.mem_map_of_mem hentry)

theorem oldest_snoc (entries : CacheEntries) (last : Bytes × CachedPrepared)
    (h : (entries ++ [last]).Pairwise fun a b => b.2.lastUsed < a.2.lastUsed) :
    oldest (entries ++ [last]) = some (last.1, last.2.lastUsed) := by
  induction entries with
  | nil => rfl
  | cons entry entries ih =>
    rw [List.cons_append, List.pairwise_cons] at h
    have hless : last.2.lastUsed < entry.2.lastUsed := h.1 last (by simp)
    rw [List.cons_append, oldest, ih h.2]
    exact if_neg (by omega)

theorem remove_snoc (entries : CacheEntries) (last : Bytes × CachedPrepared)
    (h : ((entries ++ [last]).map Prod.fst).Nodup) : remove (entries ++ [last]) last.1 = entries := by
  rw [List.map_append, List.nodup_append] at h
  have hlast : last.1 ∉ entries.map Prod.fst := fun hmem =>
    h.2.2 last.1 hmem last.1 (by simp) rfl
  have happend : remove (entries ++ [last]) last.1 = remove entries last.1 := by
    simp [remove, List.filter_append]
  rw [happend, remove_eq_self hlast]

theorem trim_eq_take (capacity : Nat) (fuel : Nat) (entries : CacheEntries)
    (hdecreasing : entries.Pairwise fun a b => b.2.lastUsed < a.2.lastUsed)
    (hnodup : (entries.map Prod.fst).Nodup) (hfuel : entries.length ≤ capacity + fuel) :
    trim capacity fuel entries = entries.take capacity := by
  induction fuel generalizing entries with
  | zero =>
    have hle : entries.length ≤ capacity := hfuel
    exact (List.take_of_length_le hle).symm
  | succ fuel ih =>
    by_cases hfull : capacity < entries.length
    · obtain ⟨front, last, rfl⟩ : ∃ front last, entries = front ++ [last] := by
        have hne : entries ≠ [] := by
          rintro rfl
          simp at hfull
        exact ⟨entries.dropLast, entries.getLast hne, (List.dropLast_append_getLast hne).symm⟩
      rw [List.length_append, List.length_singleton] at hfuel hfull
      rw [List.pairwise_append] at hdecreasing
      have hfront : (front.map Prod.fst).Nodup := by
        rw [List.map_append, List.nodup_append] at hnodup
        exact hnodup.1
      have hold := oldest_snoc front last (List.pairwise_append.mpr hdecreasing)
      rw [trim, if_pos (by simpa using hfull), hold]
      simp only [remove_snoc front last hnodup]
      rw [ih front hdecreasing.1 hfront (by omega), List.take_append_of_le_length (by omega)]
    · rw [trim, if_neg hfull, List.take_of_length_le (by omega)]

end CacheEntries

namespace Sorted
variable {cache : PreparedCache}

theorem trim_entries (h : Sorted cache) : cache.trim.entries = cache.entries.take cache.capacity :=
  CacheEntries.trim_eq_take cache.capacity cache.entries.length cache.entries h.decreasing h.nodup
    (by omega)

theorem of_sublist {other : PreparedCache} (h : Sorted cache)
    (hsub : other.entries.Sublist cache.entries) (hcounter : cache.useCounter ≤ other.useCounter) :
    Sorted other where
  decreasing := h.decreasing.sublist hsub
  bounded entry hentry := (h.bounded entry (hsub.subset hentry)).trans hcounter
  nodup := h.nodup.sublist (hsub.map Prod.fst)
  counted entry hentry executions hdeferred :=
    (h.counted entry (hsub.subset hentry) executions hdeferred).trans hcounter

theorem deferred_le (h : Sorted cache) {key : Bytes} {executions : Nat}
    (houtcome : cache.outcomeOf key = some (.deferred executions)) :
    executions ≤ cache.useCounter := by
  obtain ⟨entry, hfind, hentry⟩ : ∃ entry,
      List.find? (fun entry => entry.1 = key) cache.entries = some entry ∧
        entry.2.outcome = .deferred executions := by
    simpa [PreparedCache.outcomeOf, CacheEntries.outcome] using houtcome
  exact h.counted entry (List.mem_of_find?_eq_some hfind) executions hentry

theorem trim (h : Sorted cache) : Sorted cache.trim :=
  h.of_sublist (by rw [h.trim_entries]; exact List.take_sublist _ _) (le_refl _)

theorem nextUse (h : Sorted cache) (hroom : cache.useCounter < usizeMax) :
    cache.nextUse.useCounter = cache.useCounter + 1 ∧ Sorted cache.nextUse := by
  have hcounter : cache.nextUse.useCounter = cache.useCounter + 1 := by
    simp only [PreparedCache.nextUse, saturatingAdd]
    omega
  exact ⟨hcounter, h.of_sublist (List.Sublist.refl _) (by omega)⟩

theorem put (h : Sorted cache) (hroom : cache.useCounter < usizeMax) (key : Bytes)
    {outcome : PrepareOutcome}
    (hcount : ∀ executions, outcome = .deferred executions → executions ≤ cache.useCounter + 1) :
    Sorted (cache.nextUse.put key outcome) := by
  obtain ⟨hcounter, hnext⟩ := h.nextUse hroom
  have hsub : (CacheEntries.remove cache.entries key).Sublist cache.entries :=
    List.filter_sublist
  refine ⟨?_, ?_, ?_, ?_⟩
  · refine List.pairwise_cons.mpr ⟨fun entry hentry => ?_, h.decreasing.sublist hsub⟩
    have hle := h.bounded entry (hsub.subset hentry)
    simp only [hcounter]
    omega
  · intro entry hentry
    rcases List.mem_cons.mp hentry with rfl | hentry
    · exact le_refl _
    · exact hnext.bounded entry (hsub.subset hentry)
  · refine List.nodup_cons.mpr ⟨?_, h.nodup.sublist (hsub.map Prod.fst)⟩
    intro hmem
    obtain ⟨entry, hentry, hkey⟩ := List.mem_map.mp hmem
    simpa [hkey] using (List.mem_filter.mp hentry).2
  · intro entry hentry executions hdeferred
    rcases List.mem_cons.mp hentry with rfl | hentry
    · exact (hcount executions hdeferred).trans hcounter.ge
    · exact hnext.counted entry (hsub.subset hentry) executions hdeferred

end Sorted

theorem view_remove (entries : CacheEntries) (key : Bytes) :
    (CacheEntries.remove entries key).map (fun entry => (entry.1, entry.2.outcome)) =
      (entries.map fun entry => (entry.1, entry.2.outcome)).filter (·.1 ≠ key) := by
  rw [List.filter_map]
  rfl

theorem view_put (cache : PreparedCache) (key : Bytes) (outcome : PrepareOutcome) :
    (cache.nextUse.put key outcome).view = (CacheEffect.write key outcome).run cache.view :=
  congrArg _ (view_remove cache.entries key)

theorem outcomeOf_isSome_iff (cache : PreparedCache) (key : Bytes) :
    (cache.outcomeOf key).isSome = true ↔ key ∈ cache.keys := by
  simp [PreparedCache.outcomeOf, CacheEntries.outcome, PreparedCache.keys, PreparedCache.view]

structure StepsTo (cache : PreparedCache) (uses capacity : Nat) (effect : CacheEffect)
    (next : PreparedCache) : Prop where
  capacity_eq : next.capacity = capacity
  counter_eq : next.useCounter = cache.useCounter + uses
  sorted : Sorted next
  view_eq : next.view = (effect.run cache.view).take capacity

namespace StepsTo
variable {cache : PreparedCache} {key : Bytes} {outcome : PrepareOutcome}

theorem keep (h : Sorted cache) (hsize : cache.entries.length ≤ cache.capacity) :
    StepsTo cache 0 cache.capacity .keep cache :=
  ⟨rfl, rfl, h, (List.take_of_length_le (by simpa [CacheEffect.run, PreparedCache.view])).symm⟩

theorem use (h : Sorted cache) (hsize : cache.entries.length ≤ cache.capacity)
    (hroom : cache.useCounter < usizeMax) :
    StepsTo cache 1 cache.capacity .keep cache.nextUse :=
  ⟨rfl, (h.nextUse hroom).1, (h.nextUse hroom).2, (keep h hsize).view_eq⟩

theorem drop (h : Sorted cache) (hsize : cache.entries.length ≤ cache.capacity) (key : Bytes) :
    StepsTo cache 0 cache.capacity (.drop key)
      { cache with entries := CacheEntries.remove cache.entries key } := by
  have hsub : (CacheEntries.remove cache.entries key).Sublist cache.entries := List.filter_sublist
  refine ⟨rfl, rfl, h.of_sublist hsub (le_refl _), ?_⟩
  have hview : PreparedCache.view { cache with entries := CacheEntries.remove cache.entries key } =
      (CacheEffect.drop key).run cache.view := view_remove cache.entries key
  rw [hview, List.take_of_length_le]
  rw [← hview, PreparedCache.view, List.length_map]
  exact hsub.length_le.trans hsize

theorem write (h : Sorted cache) (hroom : cache.useCounter < usizeMax)
    (hcount : ∀ executions, outcome = .deferred executions → executions ≤ cache.useCounter + 1) :
    StepsTo cache 1 cache.capacity (.write key outcome) (cache.nextUse.put key outcome).trim := by
  have hput := h.put hroom key hcount
  refine ⟨rfl, (h.nextUse hroom).1, hput.trim, ?_⟩
  rw [PreparedCache.view, hput.trim_entries, List.map_take]
  exact congrArg (List.take cache.capacity) (view_put cache key outcome)

-- A key that is already present is written without trimming: its entry is only replaced.
theorem touch (h : Sorted cache) (hsize : cache.entries.length ≤ cache.capacity)
    (hroom : cache.useCounter < usizeMax)
    (hcount : ∀ executions, outcome = .deferred executions → executions ≤ cache.useCounter + 1)
    (hpresent : key ∈ cache.keys) :
    StepsTo cache 1 cache.capacity (.write key outcome) (cache.nextUse.put key outcome) := by
  have hput := h.put hroom key hcount
  have hlength : (cache.nextUse.put key outcome).entries.length ≤
      (cache.nextUse.put key outcome).capacity := by
    obtain ⟨pair, hpair, hkey⟩ := List.mem_map.mp hpresent
    obtain ⟨entry, hentry, rfl⟩ := List.mem_map.mp hpair
    have hless : (CacheEntries.remove cache.entries key).length < cache.entries.length :=
      List.length_filter_lt_length_iff_exists.mpr ⟨entry, hentry, by simpa using hkey⟩
    exact (Nat.succ_le_of_lt hless).trans hsize
  have htrim : (cache.nextUse.put key outcome).trim = cache.nextUse.put key outcome := by
    have hentries := hput.trim_entries
    rw [List.take_of_length_le hlength] at hentries
    simp only [PreparedCache.trim] at hentries ⊢
    rw [hentries]
  exact htrim ▸ write h hroom hcount

theorem then_write {first : CacheEffect} {middle : PreparedCache}
    (hfirst : StepsTo cache 1 cache.capacity first middle)
    (hsame : (CacheEffect.write key outcome).run middle.view =
      (CacheEffect.write key outcome).run cache.view)
    (hroom : cache.useCounter + 1 < usizeMax)
    (hplain : ∀ executions, outcome ≠ .deferred executions) :
    StepsTo cache 2 cache.capacity (.write key outcome) (middle.nextUse.put key outcome).trim := by
  have hmiddle : middle.useCounter < usizeMax := by rw [hfirst.counter_eq]; exact hroom
  have hsecond : StepsTo middle 1 middle.capacity (.write key outcome)
      (middle.nextUse.put key outcome).trim :=
    write hfirst.sorted hmiddle fun executions h => absurd h (hplain executions)
  rw [hfirst.capacity_eq] at hsecond
  refine ⟨hsecond.capacity_eq, ?_, hsecond.sorted, ?_⟩
  · rw [hsecond.counter_eq, hfirst.counter_eq]
  · rw [hsecond.view_eq, hsame]

end StepsTo

theorem getOutcome_eq (cache : PreparedCache) (query : Bytes) :
    cache.getOutcome query =
      match cache.outcomeOf (normalizePreparedQuery query) with
      | none => (none, cache.nextUse)
      | some outcome =>
        (some outcome, cache.nextUse.put (normalizePreparedQuery query) outcome) := rfl

theorem write_write (view : CacheView) (key : Bytes) (old new : PrepareOutcome) :
    (CacheEffect.write key new).run ((CacheEffect.write key old).run view) =
      (CacheEffect.write key new).run view := by
  simp [CacheEffect.run, List.filter_filter]

section Calls
variable {cache : PreparedCache} (h : Sorted cache)
  (hsize : cache.entries.length ≤ cache.capacity) {key : Bytes}
include h hsize

theorem touch_known {outcome : PrepareOutcome} (hroom : cache.useCounter < usizeMax)
    (houtcome : cache.outcomeOf key = some outcome) :
    StepsTo cache 1 cache.capacity (.write key outcome) (cache.nextUse.put key outcome) := by
  have hpresent : key ∈ cache.keys := (outcomeOf_isSome_iff cache key).mp (by rw [houtcome]; rfl)
  refine .touch h hsize hroom (fun executions hdeferred => ?_) hpresent
  exact (h.deferred_le (hdeferred ▸ houtcome)).trans (Nat.le_succ _)

theorem get_stepsTo (query : Bytes) (hroom : cache.useCounter < usizeMax) :
    StepsTo cache 1 cache.capacity ((CacheCall.get query).effect cache) (cache.get query).2 := by
  have hget : (cache.get query).2 = (cache.getOutcome query).2 := by
    unfold PreparedCache.get
    split <;> simp_all
  rw [hget, getOutcome_eq, CacheCall.effect]
  cases houtcome : cache.outcomeOf (normalizePreparedQuery query) with
  | none => exact .use h hsize hroom
  | some outcome => exact touch_known h hsize hroom houtcome

theorem insert_stepsTo (query : Bytes) (candidate : PreparedEntry)
    (hsettled : (CacheCall.insert query candidate).Settled)
    (hroom : cache.useCounter + (CacheCall.insert query candidate).uses cache ≤ usizeMax) :
    StepsTo cache ((CacheCall.insert query candidate).uses cache) cache.capacity
      ((CacheCall.insert query candidate).effect cache) (cache.insert query candidate).2 := by
  simp only [CacheCall.Settled] at hsettled
  simp only [PreparedCache.insert, getOutcome_eq, hsettled, CacheCall.effect, CacheCall.uses]
    at hroom ⊢
  cases houtcome : cache.outcomeOf (normalizePreparedQuery query) with
  | none =>
    rw [houtcome] at hroom
    have hroom : cache.useCounter + 2 ≤ usizeMax := hroom
    exact .then_write (.use h hsize (by omega)) rfl (by omega) (by simp)
  | some outcome =>
    rw [houtcome] at hroom
    cases outcome with
    | prepared existing =>
      have hroom : cache.useCounter + 1 ≤ usizeMax := hroom
      exact touch_known h hsize (by omega) houtcome
    | literal diagnostic | deferred executions =>
      have hroom : cache.useCounter + 2 ≤ usizeMax := hroom
      refine .then_write (touch_known h hsize (by omega) houtcome) ?_ (by omega) (by simp)
      rw [view_put, write_write]

theorem insertLiteral_stepsTo (query : Bytes) (candidate : AdbcError)
    (hsettled : (CacheCall.insertLiteral query candidate).Settled)
    (hroom : cache.useCounter + (CacheCall.insertLiteral query candidate).uses cache ≤ usizeMax) :
    StepsTo cache ((CacheCall.insertLiteral query candidate).uses cache) cache.capacity
      ((CacheCall.insertLiteral query candidate).effect cache)
      (cache.insertLiteral query candidate).2 := by
  simp only [CacheCall.Settled] at hsettled
  simp only [PreparedCache.insertLiteral, getOutcome_eq, hsettled, CacheCall.effect, CacheCall.uses]
    at hroom ⊢
  cases houtcome : cache.outcomeOf (normalizePreparedQuery query) with
  | none =>
    rw [houtcome] at hroom
    have hroom : cache.useCounter + 2 ≤ usizeMax := hroom
    exact .then_write (.use h hsize (by omega)) rfl (by omega) (by simp)
  | some outcome =>
    rw [houtcome] at hroom
    cases outcome with
    | prepared existing | literal existing =>
      have hroom : cache.useCounter + 1 ≤ usizeMax := hroom
      exact touch_known h hsize (by omega) houtcome
    | deferred executions =>
      have hroom : cache.useCounter + 2 ≤ usizeMax := hroom
      refine .then_write (touch_known h hsize (by omega) houtcome) ?_ (by omega) (by simp)
      rw [view_put, write_write]

theorem replace_stepsTo (query : Bytes) (id : Nat) (candidate : AdbcError)
    (hroom : cache.useCounter +
      (CacheCall.replacePreparedWithLiteral query id candidate).uses cache ≤ usizeMax) :
    StepsTo cache ((CacheCall.replacePreparedWithLiteral query id candidate).uses cache)
      cache.capacity ((CacheCall.replacePreparedWithLiteral query id candidate).effect cache)
      (cache.replacePreparedWithLiteral query id candidate).2 := by
  have hlookup : CacheEntries.outcome cache.entries (normalizePreparedQuery query) =
      cache.outcomeOf (normalizePreparedQuery query) := rfl
  simp only [PreparedCache.replacePreparedWithLiteral, hlookup, CacheCall.effect, CacheCall.uses]
    at hroom ⊢
  cases houtcome : cache.outcomeOf (normalizePreparedQuery query) with
  | none =>
    rw [houtcome] at hroom
    have hroom : cache.useCounter + 1 ≤ usizeMax := hroom
    exact .write h (by omega) (by simp)
  | some outcome =>
    rw [houtcome] at hroom
    cases outcome with
    | literal fallback => exact .keep h hsize
    | deferred executions =>
      have hroom : cache.useCounter + 1 ≤ usizeMax := hroom
      exact .write h (by omega) (by simp)
    | prepared entry =>
      by_cases hid : entry.id ≠ id
      · simp only [if_pos hid]
        exact .keep h hsize
      · simp only [if_neg hid] at hroom ⊢
        exact .write h (by omega) (by simp)

theorem removeIfId_stepsTo (query : Bytes) (id : Nat) :
    StepsTo cache 0 cache.capacity ((CacheCall.removeIfId query id).effect cache)
      (cache.removeIfId query id) := by
  have hlookup : CacheEntries.outcome cache.entries (normalizePreparedQuery query) =
      cache.outcomeOf (normalizePreparedQuery query) := rfl
  simp only [PreparedCache.removeIfId, hlookup, CacheCall.effect]
  cases cache.outcomeOf (normalizePreparedQuery query) with
  | none => exact .keep h hsize
  | some outcome =>
    cases outcome with
    | literal fallback | deferred executions => exact .keep h hsize
    | prepared entry =>
      by_cases hid : entry.id = id
      · simp only [if_pos hid]
        exact .drop h hsize _
      · simp only [if_neg hid]
        exact .keep h hsize

theorem used_drop (hroom : cache.useCounter < usizeMax) (key : Bytes) :
    StepsTo cache 1 cache.capacity (.drop key)
      { cache.nextUse with entries := CacheEntries.remove cache.nextUse.entries key } := by
  obtain ⟨hcounter, hsorted⟩ := h.nextUse hroom
  have hdrop := StepsTo.drop hsorted hsize key
  exact ⟨hdrop.capacity_eq, hcounter, hdrop.sorted, hdrop.view_eq⟩

theorem prepareDecision_stepsTo (query : Bytes) (threshold : Nat) (request : PrepareRequest)
    (hroom : cache.useCounter < usizeMax) :
    StepsTo cache 1 cache.capacity ((CacheCall.prepareDecision query threshold request).effect cache)
      (cache.prepareDecision query threshold request).2 := by
  have hlookup : CacheEntries.outcome cache.nextUse.entries (normalizePreparedQuery query) =
      cache.outcomeOf (normalizePreparedQuery query) := rfl
  simp only [PreparedCache.prepareDecision, hlookup, CacheCall.effect, CacheCall.decisionEffect]
  cases houtcome : cache.outcomeOf (normalizePreparedQuery query) with
  | none =>
    by_cases hdefer : request ≠ .force ∧ threshold ≠ 1
    · simp only [if_pos hdefer]
      refine .write h hroom fun executions heq => ?_
      cases heq
      split_ifs <;> omega
    · simp only [if_neg hdefer]
      exact .use h hsize hroom
  | some outcome =>
    have htouch := touch_known h hsize hroom houtcome
    cases outcome with
    | prepared entry | literal diagnostic => exact htouch
    | deferred executions =>
      have hle := h.deferred_le houtcome
      have hcounted : saturatingAdd executions 1 = executions + 1 := by
        simp only [saturatingAdd]
        omega
      cases request with
      | declare => exact htouch
      | force => exact used_drop h hsize hroom _
      | execute =>
        simp only [hcounted]
        split_ifs with hbelow
        · refine .touch h hsize hroom (fun count heq => ?_)
            ((outcomeOf_isSome_iff cache _).mp (by rw [houtcome]; rfl))
          cases heq
          omega
        · exact used_drop h hsize hroom _

theorem apply_stepsTo (call : CacheCall) (hsettled : call.Settled)
    (hroom : cache.useCounter + call.uses cache ≤ usizeMax) :
    StepsTo cache (call.uses cache) (call.capacityAfter cache) (call.effect cache)
      (call.apply cache) := by
  cases call with
  | get query => exact get_stepsTo h hsize query hroom
  | prepareDecision query threshold request =>
    exact prepareDecision_stepsTo h hsize query threshold request hroom
  | insert query candidate => exact insert_stepsTo h hsize query candidate hsettled hroom
  | insertLiteral query candidate =>
    exact insertLiteral_stepsTo h hsize query candidate hsettled hroom
  | replacePreparedWithLiteral query id candidate =>
    exact replace_stepsTo h hsize query id candidate hroom
  | removeIfId query id => exact removeIfId_stepsTo h hsize query id
  | clear =>
    exact ⟨rfl, rfl, h.of_sublist (List.nil_sublist _) (le_refl _), List.take_nil.symm⟩
  | setCapacity capacity positive =>
    have hsorted : Sorted ⟨capacity, cache.entries, cache.useCounter, positive⟩ :=
      h.of_sublist (List.Sublist.refl _) (le_refl _)
    refine ⟨rfl, rfl, hsorted.trim, ?_⟩
    change (PreparedCache.trim ⟨capacity, cache.entries, cache.useCounter, positive⟩).entries.map _ = _
    rw [hsorted.trim_entries, List.map_take]
    rfl

end Calls

def lookup (view : CacheView) (key : Bytes) : Option PrepareOutcome :=
  (view.find? fun entry => entry.1 = key).map Prod.snd

theorem outcomeOf_eq_lookup (cache : PreparedCache) (key : Bytes) :
    cache.outcomeOf key = lookup cache.view key := by
  rw [lookup, PreparedCache.view, List.find?_map, Option.map_map]
  rfl

theorem lookup_filter (view : CacheView) (key other : Bytes) :
    lookup (view.filter (·.1 ≠ key)) other = if other = key then none else lookup view other := by
  rw [lookup, List.find?_filter]
  by_cases hother : other = key
  · rw [if_pos hother, Option.map_eq_none_iff, List.find?_eq_none]
    intro entry _
    simp [hother]
  · rw [if_neg hother]
    congr 2
    funext entry
    by_cases hentry : entry.1 = other <;> simp [hentry, hother]

theorem lookup_take {view : CacheView} {count : Nat} {key : Bytes}
    (h : key ∈ (view.take count).map Prod.fst) : lookup (view.take count) key = lookup view key := by
  obtain ⟨entry, hentry, hkey⟩ := List.mem_map.mp h
  have hfound : ((view.take count).find? fun entry => entry.1 = key).isSome = true := by
    rw [List.find?_isSome]
    exact ⟨entry, hentry, by simpa using hkey⟩
  have hsplit : view.find? (fun entry => entry.1 = key) =
      (view.take count).find? fun entry => entry.1 = key := by
    conv_lhs => rw [← List.take_append_drop count view]
    rw [List.find?_append]
    exact Option.or_of_isSome hfound
  rw [lookup, lookup, hsplit]

theorem lookup_eq_none {view : CacheView} {key : Bytes} (h : key ∉ view.map Prod.fst) :
    lookup view key = none := by
  rw [lookup, Option.map_eq_none_iff, List.find?_eq_none]
  intro entry hentry
  simpa using fun heq : entry.1 = key => h (heq ▸ List.mem_map_of_mem hentry)

def CacheEffect.outcome (key : Bytes) (old : Option PrepareOutcome) :
    CacheEffect → Option PrepareOutcome
  | .keep => old
  | .write written outcome => if key = written then some outcome else old
  | .drop dropped => if key = dropped then none else old
  | .clear => none

theorem lookup_run (view : CacheView) (effect : CacheEffect) (key : Bytes) :
    lookup (effect.run view) key = effect.outcome key (lookup view key) := by
  cases effect with
  | keep | clear => rfl
  | drop dropped => exact lookup_filter view dropped key
  | write written outcome =>
    by_cases hkey : key = written
    · simp [CacheEffect.run, CacheEffect.outcome, lookup, hkey]
    · have hne : ¬ written = key := fun heq => hkey heq.symm
      have hskip : lookup ((CacheEffect.write written outcome).run view) key =
          lookup (view.filter (·.1 ≠ written)) key := by simp [CacheEffect.run, lookup, hne]
      rw [hskip, lookup_filter, if_neg hkey]
      simp [CacheEffect.outcome, hkey]

end MonetdbAdbc.Driver
