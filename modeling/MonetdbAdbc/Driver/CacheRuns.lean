import MonetdbAdbc.Driver.CacheLru

namespace MonetdbAdbc.Driver
open LittleEndian Sql Machine Recency

def runCalls (cache : PreparedCache) (calls : List CacheCall) : PreparedCache :=
  calls.foldl (fun cache call => call.apply cache) cache

def totalUses : PreparedCache → List CacheCall → Nat
  | _, [] => 0
  | cache, call :: calls => call.uses cache + totalUses (call.apply cache) calls

def usedKeys : PreparedCache → List CacheCall → List Bytes
  | _, [] => []
  | cache, call :: calls => usedKeys (call.apply cache) calls ++ call.usesKeys cache

def CacheCall.executes (key : Bytes) : CacheCall → Bool
  | .prepareDecision query _ .execute => normalizePreparedQuery query == key
  | _ => false

def Evicted (cache : PreparedCache) (call : CacheCall) (key : Bytes) : Prop :=
  key ∈ ((call.effect cache).run cache.view).map Prod.fst ∧ key ∉ (call.apply cache).keys

def CountedSince (start : PreparedCache) (key : Bytes) (calls : List CacheCall) (count : Nat) :
    Prop :=
  ∃ before call after, calls = before ++ call :: after ∧
    (runCalls start before).outcomeOf key = none ∧
    (∀ middle, middle <+: after → ∃ executions,
      (runCalls start (before ++ call :: middle)).outcomeOf key = some (.deferred executions)) ∧
    count = (call :: after).countP (CacheCall.executes key)

structure BoundedLru (start : PreparedCache) (before : List CacheCall) (call : CacheCall)
    (cache next : PreparedCache) : Prop where
  bounded : next.entries.length ≤ next.capacity
  evicts_least_recent : ∀ kept ∈ next.keys, ∀ key, Evicted cache call key →
    UsedAfter (call.usesKeys cache ++ usedKeys start before) kept key
  evicts_when_full : ∀ key, Evicted cache call key → next.entries.length = next.capacity
  spares_touched : ∀ key ∈ call.usesKeys cache, ¬ Evicted cache call key
  prepared_stays : ∀ key entry, cache.outcomeOf key = some (.prepared entry) →
    next.outcomeOf key = some (.prepared entry) ∨ Evicted cache call key ∨ call = .clear ∨
      (∃ query, call = .removeIfId query entry.id ∧ normalizePreparedQuery query = key) ∨
      ∃ query diagnostic, call = .replacePreparedWithLiteral query entry.id diagnostic ∧
        normalizePreparedQuery query = key
  literal_stays : ∀ key diagnostic, cache.outcomeOf key = some (.literal diagnostic) →
    next.outcomeOf key = some (.literal diagnostic) ∨ Evicted cache call key ∨ call = .clear ∨
      ∃ query entry, call = .insert query entry ∧ normalizePreparedQuery query = key
  answers_cached : ∀ query threshold request outcome,
    call = .prepareDecision query threshold request →
    cache.outcomeOf (normalizePreparedQuery query) = some outcome →
    (∀ executions, outcome ≠ .deferred executions) →
    (cache.prepareDecision query threshold request).1 = .outcome outcome true
  counts_executions : ∀ key executions, next.outcomeOf key = some (.deferred executions) →
    CountedSince start key (before ++ [call]) executions
  prepares_deferred : ∀ query threshold request executions,
    call = .prepareDecision query threshold request →
    cache.outcomeOf (normalizePreparedQuery query) = some (.deferred executions) →
    ((cache.prepareDecision query threshold request).1 = .prepare ↔
      request = .force ∨ request = .execute ∧ threshold ≠ 0 ∧ threshold ≤ executions + 1) ∧
    ((cache.prepareDecision query threshold request).1 = .prepare →
      next.outcomeOf (normalizePreparedQuery query) = none)
  prepares_absent : ∀ query threshold request,
    call = .prepareDecision query threshold request →
    cache.outcomeOf (normalizePreparedQuery query) = none →
    ((cache.prepareDecision query threshold request).1 = .prepare ↔
      request = .force ∨ threshold = 1)

structure LruCache (history : List Bytes) (cache : PreparedCache) : Prop where
  sorted : Sorted cache
  size : cache.entries.length ≤ cache.capacity
  recency : cache.keys.Sublist (recent history)

def CacheEffect.keys (keys : List Bytes) : CacheEffect → List Bytes
  | .keep => keys
  | .write key _ => key :: keys.filter (· ≠ key)
  | .drop key => keys.filter (· ≠ key)
  | .clear => []

theorem keys_run (view : CacheView) (effect : CacheEffect) :
    (effect.run view).map Prod.fst = effect.keys (view.map Prod.fst) := by
  have hfilter : ∀ key : Bytes, (view.filter (·.1 ≠ key)).map Prod.fst =
      (view.map Prod.fst).filter (· ≠ key) := by
    intro key
    rw [List.filter_map]
    rfl
  cases effect with
  | keep | clear => rfl
  | write key outcome => exact congrArg _ (hfilter key)
  | drop key => exact hfilter key

def UsesMatch (cache : PreparedCache) (used : List Bytes) : CacheEffect → Prop
  | .keep => used = [] ∨ ∃ key, used = [key] ∧ cache.outcomeOf key = none
  | .write key _ => used = [key]
  | .drop key => used = [] ∨ used = [key]
  | .clear => used = []

theorem usesKeys_match (cache : PreparedCache) (call : CacheCall) :
    UsesMatch cache (call.usesKeys cache) (call.effect cache) := by
  cases call with
  | get query =>
    simp only [CacheCall.effect]
    cases houtcome : cache.outcomeOf (normalizePreparedQuery query) with
    | none => exact .inr ⟨_, rfl, houtcome⟩
    | some outcome => exact rfl
  | prepareDecision query threshold request =>
    simp only [CacheCall.effect]
    cases houtcome : cache.outcomeOf (normalizePreparedQuery query) with
    | none =>
      simp only [CacheCall.decisionEffect]
      split_ifs
      · exact rfl
      · exact rfl
      · exact .inr ⟨_, rfl, houtcome⟩
    | some outcome =>
      cases outcome with
      | prepared entry | literal diagnostic => exact rfl
      | deferred executions =>
        cases request with
        | declare => exact rfl
        | force => exact .inr rfl
        | execute =>
          simp only [CacheCall.decisionEffect]
          split_ifs
          · exact rfl
          · exact .inr rfl
  | insert query candidate | insertLiteral query candidate =>
    simp only [CacheCall.effect]
    split <;> exact rfl
  | replacePreparedWithLiteral query id candidate =>
    simp only [CacheCall.usesKeys]
    cases heffect : CacheCall.effect cache (.replacePreparedWithLiteral query id candidate) with
    | keep => exact .inl rfl
    | write key outcome => exact rfl
    | drop key => exact .inl rfl
    | clear => exact rfl
  | removeIfId query id =>
    simp only [CacheCall.effect]
    split
    · split_ifs
      · exact .inl rfl
      · exact .inl rfl
    · exact .inl rfl
  | clear => exact rfl
  | setCapacity capacity positive => exact .inl rfl

theorem recency_effect {history : List Bytes} {cache : PreparedCache} (h : LruCache history cache)
    (call : CacheCall) : ((call.effect cache).keys cache.keys).Sublist
    (recent (call.usesKeys cache ++ history)) := by
  have huses := usesKeys_match cache call
  cases heffect : call.effect cache with
  | keep =>
    rw [heffect] at huses
    rcases huses with hnone | ⟨key, hkey, habsent⟩
    · rw [hnone]
      exact h.recency
    · rw [hkey]
      refine sublist_use h.recency fun hmem => ?_
      have hcached := (outcomeOf_isSome_iff cache key).mpr hmem
      rw [habsent] at hcached
      cases hcached
  | write key outcome =>
    rw [heffect] at huses
    rw [show call.usesKeys cache = [key] from huses]
    exact sublist_touch key h.recency
  | drop key =>
    rw [heffect] at huses
    rcases huses with hnone | hkey
    · rw [hnone]
      exact List.filter_sublist.trans h.recency
    · rw [hkey]
      exact (List.sublist_cons_self _ _).trans (sublist_touch key h.recency)
  | clear => exact List.nil_sublist _

section Step
variable {history : List Bytes} {cache : PreparedCache} (h : LruCache history cache)
  {call : CacheCall} (hsettled : call.Settled)
  (hroom : cache.useCounter + call.uses cache ≤ usizeMax)
include h hsettled hroom

theorem keys_apply : (call.apply cache).keys =
    ((call.effect cache).keys cache.keys).take (call.apply cache).capacity := by
  have hstep := apply_stepsTo h.sorted h.size call hsettled hroom
  rw [PreparedCache.keys, hstep.view_eq, List.map_take, keys_run, hstep.capacity_eq]
  rfl

theorem LruCache.apply : LruCache (call.usesKeys cache ++ history) (call.apply cache) := by
  have hstep := apply_stepsTo h.sorted h.size call hsettled hroom
  refine ⟨hstep.sorted, ?_, ?_⟩
  · have hlength : (call.apply cache).view.length ≤ (call.apply cache).capacity := by
      rw [hstep.view_eq, hstep.capacity_eq, List.length_take]
      exact Nat.min_le_left _ _
    simpa [PreparedCache.view] using hlength
  · rw [keys_apply h hsettled hroom]
    exact (List.take_sublist _ _).trans (recency_effect h call)

theorem outcomeOf_apply (key : Bytes) : (call.apply cache).outcomeOf key =
      (call.effect cache).outcome key (cache.outcomeOf key) ∨
    (Evicted cache call key ∧ (call.apply cache).outcomeOf key = none) := by
  have hstep := apply_stepsTo h.sorted h.size call hsettled hroom
  rw [outcomeOf_eq_lookup, outcomeOf_eq_lookup, ← lookup_run]
  by_cases hkept : key ∈ (call.apply cache).keys
  · left
    have hmem := hkept
    rw [PreparedCache.keys, hstep.view_eq] at hmem
    rw [hstep.view_eq]
    exact lookup_take hmem
  · by_cases hwritten : key ∈ ((call.effect cache).run cache.view).map Prod.fst
    · exact .inr ⟨⟨hwritten, hkept⟩, lookup_eq_none hkept⟩
    · exact .inl ((lookup_eq_none hkept).trans (lookup_eq_none hwritten).symm)

theorem evicted_mem_drop {key : Bytes} (hevicted : Evicted cache call key) :
    key ∈ ((call.effect cache).keys cache.keys).drop (call.apply cache).capacity := by
  have hmem := hevicted.1
  rw [keys_run, ← List.take_append_drop (call.apply cache).capacity
    (CacheEffect.keys (List.map Prod.fst cache.view) (call.effect cache)), List.mem_append] at hmem
  refine hmem.resolve_left fun htake => hevicted.2 ?_
  rw [keys_apply h hsettled hroom]
  exact htake

theorem evicted_key_kept (kept : Bytes) (hkept : kept ∈ (call.apply cache).keys) (key : Bytes)
    (hevicted : Evicted cache call key) : UsedAfter (call.usesKeys cache ++ history) kept key := by
  have hrecent := (recent_usedAfter (call.usesKeys cache ++ history)).sublist
    (recency_effect h call)
  rw [← List.take_append_drop (call.apply cache).capacity ((call.effect cache).keys cache.keys),
    List.pairwise_append] at hrecent
  rw [keys_apply h hsettled hroom] at hkept
  exact hrecent.2.2 kept hkept key (evicted_mem_drop h hsettled hroom hevicted)

theorem evicted_full {key : Bytes} (hevicted : Evicted cache call key) :
    (call.apply cache).entries.length = (call.apply cache).capacity := by
  have hdrop := List.length_pos_of_mem (evicted_mem_drop h hsettled hroom hevicted)
  have hkeys := congrArg List.length (keys_apply h hsettled hroom)
  rw [List.length_drop] at hdrop
  rw [List.length_take, PreparedCache.keys, PreparedCache.view, List.length_map,
    List.length_map] at hkeys
  omega

theorem touched_not_evicted {key : Bytes} (hused : key ∈ call.usesKeys cache) :
    ¬ Evicted cache call key := by
  intro hevicted
  have hdrop := evicted_mem_drop h hsettled hroom hevicted
  have hpos := (call.apply cache).capacity_pos
  have huses := usesKeys_match cache call
  have hmem := hevicted.1
  rw [keys_run] at hmem
  cases heffect : call.effect cache with
  | keep =>
    rw [heffect] at huses hmem
    rcases huses with hnone | ⟨other, hother, habsent⟩
    · rw [hnone] at hused
      cases hused
    · rw [hother, List.mem_singleton] at hused
      have hcached := (outcomeOf_isSome_iff cache key).mpr hmem
      rw [hused, habsent] at hcached
      cases hcached
  | clear =>
    rw [heffect] at hmem
    cases hmem
  | drop other =>
    rw [heffect] at huses hmem
    have hother : key = other := by
      rcases huses with hnone | hone
      · rw [hnone] at hused
        cases hused
      · rw [hone] at hused
        exact List.mem_singleton.mp hused
    simp [CacheEffect.keys, hother] at hmem
  | write other outcome =>
    rw [heffect] at huses hdrop
    have hother : key = other := by
      rw [show call.usesKeys cache = [other] from huses] at hused
      exact List.mem_singleton.mp hused
    obtain ⟨capacity, hcapacity⟩ := Nat.exists_eq_succ_of_ne_zero hpos.ne'
    rw [hcapacity, CacheEffect.keys, List.drop_succ_cons] at hdrop
    simpa [hother] using List.mem_of_mem_drop hdrop

end Step

variable {key : Bytes} {cache : PreparedCache} {call : CacheCall}

def CacheCall.query : CacheCall → Option Bytes
  | .get query | .prepareDecision query _ _ | .insert query _ | .insertLiteral query _
  | .replacePreparedWithLiteral query _ _ | .removeIfId query _ => some query
  | .clear | .setCapacity _ _ => none

theorem effect_cases (cache : PreparedCache) (call : CacheCall) :
    call = .clear ∨ call.effect cache = .keep ∨ ∃ query, call.query = some query ∧
      ((∃ outcome, call.effect cache = .write (normalizePreparedQuery query) outcome) ∨
        call.effect cache = .drop (normalizePreparedQuery query)) := by
  cases call with
  | get query =>
    simp only [CacheCall.effect]
    split
    · exact .inr (.inl rfl)
    · exact .inr (.inr ⟨query, rfl, .inl ⟨_, rfl⟩⟩)
  | prepareDecision query threshold request =>
    simp only [CacheCall.effect, CacheCall.decisionEffect]
    split
    · split
      · exact .inr (.inr ⟨query, rfl, .inl ⟨_, rfl⟩⟩)
      · split_ifs
        · exact .inr (.inr ⟨query, rfl, .inl ⟨_, rfl⟩⟩)
        · exact .inr (.inr ⟨query, rfl, .inr rfl⟩)
      · exact .inr (.inr ⟨query, rfl, .inr rfl⟩)
    · exact .inr (.inr ⟨query, rfl, .inl ⟨_, rfl⟩⟩)
    · split_ifs
      · exact .inr (.inr ⟨query, rfl, .inl ⟨_, rfl⟩⟩)
      · exact .inr (.inr ⟨query, rfl, .inl ⟨_, rfl⟩⟩)
      · exact .inr (.inl rfl)
  | insert query candidate | insertLiteral query candidate =>
    simp only [CacheCall.effect]
    split <;> exact .inr (.inr ⟨query, rfl, .inl ⟨_, rfl⟩⟩)
  | replacePreparedWithLiteral query id candidate =>
    simp only [CacheCall.effect]
    split
    · exact .inr (.inl rfl)
    · split_ifs
      · exact .inr (.inl rfl)
      · exact .inr (.inr ⟨query, rfl, .inl ⟨_, rfl⟩⟩)
    · exact .inr (.inr ⟨query, rfl, .inl ⟨_, rfl⟩⟩)
  | removeIfId query id =>
    simp only [CacheCall.effect]
    split
    · split_ifs
      · exact .inr (.inr ⟨query, rfl, .inr rfl⟩)
      · exact .inr (.inl rfl)
    · exact .inr (.inl rfl)
  | clear => exact .inl rfl
  | setCapacity capacity positive => exact .inr (.inl rfl)

theorem effect_other (hclear : call ≠ .clear)
    (hother : ∀ query, call.query = some query → normalizePreparedQuery query ≠ key)
    (old : Option PrepareOutcome) : (call.effect cache).outcome key old = old := by
  rcases effect_cases cache call with hcall | hkeep | ⟨query, hquery, ⟨outcome, hwrite⟩ | hdrop⟩
  · exact absurd hcall hclear
  · rw [hkeep]
    rfl
  · rw [hwrite]
    exact if_neg (hother query hquery).symm
  · rw [hdrop]
    exact if_neg (hother query hquery).symm

theorem effect_prepared (call : CacheCall) {entry : PreparedEntry}
    (hcached : cache.outcomeOf key = some (.prepared entry)) :
    (call.effect cache).outcome key (some (.prepared entry)) = some (.prepared entry) ∨
      call = .clear ∨
      (∃ query, call = .removeIfId query entry.id ∧ normalizePreparedQuery query = key) ∨
      ∃ query diagnostic, call = .replacePreparedWithLiteral query entry.id diagnostic ∧
        normalizePreparedQuery query = key := by
  by_cases hclear : call = .clear
  · exact .inr (.inl hclear)
  by_cases hother : ∀ query, call.query = some query → normalizePreparedQuery query ≠ key
  · exact .inl (effect_other hclear hother _)
  push Not at hother
  obtain ⟨query, hquery, rfl⟩ := hother
  cases call with
  | clear => exact absurd rfl hclear
  | setCapacity capacity positive => cases hquery
  | get text | insert text candidate | insertLiteral text candidate
  | prepareDecision text threshold request =>
    cases hquery
    left
    simp only [CacheCall.effect, CacheCall.decisionEffect, hcached]
    exact if_pos rfl
  | replacePreparedWithLiteral text id candidate =>
    cases hquery
    simp only [CacheCall.effect, hcached]
    by_cases hid : entry.id = id
    · exact .inr (.inr (.inr ⟨query, candidate, by rw [hid], rfl⟩))
    · left
      rw [if_pos hid]
      rfl
  | removeIfId text id =>
    cases hquery
    simp only [CacheCall.effect, hcached]
    by_cases hid : entry.id = id
    · exact .inr (.inr (.inl ⟨query, by rw [hid], rfl⟩))
    · left
      rw [if_neg hid]
      rfl

theorem effect_literal (call : CacheCall) {diagnostic : AdbcError}
    (hcached : cache.outcomeOf key = some (.literal diagnostic)) :
    (call.effect cache).outcome key (some (.literal diagnostic)) = some (.literal diagnostic) ∨
      call = .clear ∨
      ∃ query entry, call = .insert query entry ∧ normalizePreparedQuery query = key := by
  by_cases hclear : call = .clear
  · exact .inr (.inl hclear)
  by_cases hother : ∀ query, call.query = some query → normalizePreparedQuery query ≠ key
  · exact .inl (effect_other hclear hother _)
  push Not at hother
  obtain ⟨query, hquery, rfl⟩ := hother
  cases call with
  | clear => exact absurd rfl hclear
  | setCapacity capacity positive => cases hquery
  | get text | insertLiteral text candidate | prepareDecision text threshold request =>
    cases hquery
    left
    simp only [CacheCall.effect, CacheCall.decisionEffect, hcached]
    exact if_pos rfl
  | replacePreparedWithLiteral text id candidate | removeIfId text id =>
    cases hquery
    left
    simp only [CacheCall.effect, hcached]
    rfl
  | insert text candidate =>
    cases hquery
    exact .inr (.inr ⟨query, candidate, rfl, rfl⟩)

theorem executes_query (h : call.executes key = true) :
    ∃ query, call.query = some query ∧ normalizePreparedQuery query = key := by
  cases call with
  | prepareDecision query threshold request =>
    cases request with
    | execute => exact ⟨query, rfl, by simpa [CacheCall.executes] using h⟩
    | declare | force => cases h
  | get query | insert query candidate | insertLiteral query candidate => cases h
  | replacePreparedWithLiteral query id candidate | removeIfId query id | clear => cases h
  | setCapacity capacity positive => cases h

def CountsTo (old : Option PrepareOutcome) (executed : Bool) (count : Nat) : Prop :=
  (old = none ∧ count = executed.toNat) ∨
    ∃ executions, old = some (.deferred executions) ∧ count = executions + executed.toNat

theorem decision_counts {query : Bytes} {threshold : Nat} {request : PrepareRequest}
    {old : Option PrepareOutcome} {count : Nat}
    (hnext : (CacheCall.decisionEffect (normalizePreparedQuery query) threshold request old).outcome
      (normalizePreparedQuery query) old = some (.deferred count)) :
    CountsTo old ((CacheCall.prepareDecision query threshold request).executes
      (normalizePreparedQuery query)) count := by
  cases old with
  | none =>
    left
    simp only [CacheCall.decisionEffect] at hnext
    by_cases hdefer : request ≠ .force ∧ threshold ≠ 1
    · cases request with
      | force => exact absurd rfl hdefer.1
      | declare | execute => simpa [CacheEffect.outcome, hdefer, CacheCall.executes, eq_comm] using hnext
    · rw [if_neg hdefer] at hnext
      cases hnext
  | some outcome =>
    cases outcome with
    | prepared entry | literal diagnostic => simp [CacheCall.decisionEffect, CacheEffect.outcome] at hnext
    | deferred executions =>
      refine .inr ⟨executions, rfl, ?_⟩
      cases request with
      | force => simp [CacheCall.decisionEffect, CacheEffect.outcome] at hnext
      | declare =>
        simpa [CacheCall.decisionEffect, CacheEffect.outcome, CacheCall.executes, eq_comm] using hnext
      | execute =>
        by_cases hbelow : threshold = 0 ∨ executions + 1 < threshold
        · simpa [CacheCall.decisionEffect, CacheEffect.outcome, CacheCall.executes, hbelow,
            eq_comm] using hnext
        · simp [CacheCall.decisionEffect, CacheEffect.outcome, hbelow] at hnext

-- Only a decision writes a deferred outcome, and only an execution raises its count.
theorem effect_deferred {count : Nat}
    (hnext : (call.effect cache).outcome key (cache.outcomeOf key) = some (.deferred count)) :
    CountsTo (cache.outcomeOf key) (call.executes key) count := by
  by_cases hclear : call = .clear
  · subst hclear
    cases hnext
  by_cases hother : ∀ query, call.query = some query → normalizePreparedQuery query ≠ key
  · rw [effect_other hclear hother] at hnext
    have hidle : call.executes key = false := by
      by_contra hexecutes
      obtain ⟨query, hquery, hkey⟩ := executes_query (by simpa using hexecutes)
      exact hother query hquery hkey
    exact .inr ⟨count, hnext, by rw [hidle]; rfl⟩
  push Not at hother
  obtain ⟨query, hquery, rfl⟩ := hother
  cases call with
  | clear => exact absurd rfl hclear
  | setCapacity capacity positive => cases hquery
  | prepareDecision text threshold request =>
    cases hquery
    exact decision_counts hnext
  | get text =>
    cases hquery
    right
    cases hold : cache.outcomeOf (normalizePreparedQuery query) with
    | none => simp [CacheCall.effect, hold, CacheEffect.outcome] at hnext
    | some outcome =>
      simp only [CacheCall.effect, hold, CacheEffect.outcome] at hnext
      exact ⟨count, hnext, rfl⟩
  | removeIfId text id =>
    cases hquery
    right
    cases hold : cache.outcomeOf (normalizePreparedQuery query) with
    | none => simp [CacheCall.effect, hold, CacheEffect.outcome] at hnext
    | some outcome =>
      cases outcome with
      | prepared entry =>
        by_cases hid : entry.id = id <;>
          simp [CacheCall.effect, hold, hid, CacheEffect.outcome] at hnext
      | literal diagnostic => simp [CacheCall.effect, hold, CacheEffect.outcome] at hnext
      | deferred executions =>
        simpa [CacheCall.effect, hold, CacheEffect.outcome, CacheCall.executes, eq_comm] using hnext
  | insert text candidate | insertLiteral text candidate =>
    cases hquery
    simp only [CacheCall.effect] at hnext
    split at hnext <;> simp [CacheEffect.outcome] at hnext
  | replacePreparedWithLiteral text id candidate =>
    cases hquery
    cases hold : cache.outcomeOf (normalizePreparedQuery query) with
    | none => simp [CacheCall.effect, hold, CacheEffect.outcome] at hnext
    | some outcome =>
      cases outcome with
      | prepared entry =>
        by_cases hid : entry.id = id <;>
          simp [CacheCall.effect, hold, hid, CacheEffect.outcome] at hnext
      | literal diagnostic | deferred executions =>
        simp [CacheCall.effect, hold, CacheEffect.outcome] at hnext

theorem runCalls_append (cache : PreparedCache) (before after : List CacheCall) :
    runCalls cache (before ++ after) = runCalls (runCalls cache before) after :=
  List.foldl_append

theorem totalUses_append (cache : PreparedCache) (before after : List CacheCall) :
    totalUses cache (before ++ after) =
      totalUses cache before + totalUses (runCalls cache before) after := by
  induction before generalizing cache with
  | nil => exact (Nat.zero_add _).symm
  | cons call before ih => exact (congrArg _ (ih _)).trans (Nat.add_assoc _ _ _).symm

theorem usedKeys_snoc (cache : PreparedCache) (before : List CacheCall) (call : CacheCall) :
    usedKeys cache (before ++ [call]) =
      call.usesKeys (runCalls cache before) ++ usedKeys cache before := by
  induction before generalizing cache with
  | nil => simp [usedKeys, runCalls]
  | cons first before ih =>
    rw [List.cons_append, usedKeys, ih, usedKeys, List.append_assoc]
    rfl

theorem LruCache.new (capacity : Nat) (hcapacity : 0 < capacity) :
    LruCache [] (.new capacity hcapacity) :=
  ⟨⟨.nil, by simp [PreparedCache.new], .nil, by simp [PreparedCache.new]⟩, Nat.zero_le _, .slnil⟩

section Run
variable {start : PreparedCache} (hstart : LruCache [] start) (hzero : start.useCounter = 0)
include hstart hzero

theorem LruCache.run (calls : List CacheCall) (hsettled : ∀ call ∈ calls, call.Settled)
    (huses : totalUses start calls ≤ usizeMax) :
    LruCache (usedKeys start calls) (runCalls start calls) ∧
      (runCalls start calls).useCounter = totalUses start calls := by
  induction calls using List.reverseRecOn with
  | nil => exact ⟨hstart, hzero⟩
  | append_singleton calls call ih =>
    rw [totalUses_append] at huses ⊢
    obtain ⟨hcache, hcounter⟩ := ih (fun other h => hsettled other (by simp [h])) (by omega)
    have hroom : (runCalls start calls).useCounter + call.uses (runCalls start calls) ≤ usizeMax := by
      rw [hcounter]
      simpa [totalUses] using huses
    have hcall := hsettled call (by simp)
    rw [usedKeys_snoc, runCalls_append]
    refine ⟨hcache.apply hcall hroom, ?_⟩
    have hstep := (apply_stepsTo hcache.sorted hcache.size call hcall hroom).counter_eq
    rw [hcounter] at hstep
    exact hstep

theorem counted_run (key : Bytes) (calls : List CacheCall)
    (hsettled : ∀ call ∈ calls, call.Settled) (huses : totalUses start calls ≤ usizeMax)
    (count : Nat) (hdeferred : (runCalls start calls).outcomeOf key = some (.deferred count))
    (hfresh : start.outcomeOf key = none) : CountedSince start key calls count := by
  induction calls using List.reverseRecOn generalizing count with
  | nil =>
    have hstarted : start.outcomeOf key = some (.deferred count) := hdeferred
    rw [hfresh] at hstarted
    cases hstarted
  | append_singleton calls call ih =>
    have hbefore : ∀ other ∈ calls, other.Settled := fun other h => hsettled other (by simp [h])
    have htotal := huses
    rw [totalUses_append] at htotal
    obtain ⟨hcache, hcounter⟩ := LruCache.run hstart hzero calls hbefore (by omega)
    have hroom : (runCalls start calls).useCounter + call.uses (runCalls start calls) ≤ usizeMax := by
      rw [hcounter]
      simpa [totalUses] using htotal
    have hnext : (call.apply (runCalls start calls)).outcomeOf key = some (.deferred count) := by
      rw [runCalls_append] at hdeferred
      exact hdeferred
    rcases outcomeOf_apply hcache (hsettled call (by simp)) hroom key with heffect | ⟨-, hnone⟩
    · rw [heffect] at hnext
      rcases effect_deferred hnext with ⟨hnone, hcount⟩ | ⟨executions, hold, hcount⟩
      · refine ⟨calls, call, [], rfl, hnone, ?_, ?_⟩
        · intro middle hmiddle
          rw [List.prefix_nil.mp hmiddle]
          exact ⟨count, hdeferred⟩
        · rw [hcount, List.countP_cons, List.countP_nil, Nat.zero_add]
          cases call.executes key <;> rfl
      · obtain ⟨before, first, after, rfl, hnone, hsince, hold⟩ :=
          ih hbefore (by omega) executions hold
        refine ⟨before, first, after ++ [call], by simp, hnone, ?_, ?_⟩
        · intro middle hmiddle
          rcases List.prefix_concat_iff.mp hmiddle with rfl | hmiddle
          · exact ⟨count, by simpa using hdeferred⟩
          · exact hsince middle hmiddle
        · rw [hcount, hold, ← List.cons_append, List.countP_append, List.countP_singleton]
          cases call.executes key <;> rfl
    · rw [hnone] at hnext
      cases hnext

end Run

section Decision
variable {cache : PreparedCache} {query : Bytes} {threshold : Nat} {request : PrepareRequest}

theorem decision_cached {outcome : PrepareOutcome}
    (hcached : cache.outcomeOf (normalizePreparedQuery query) = some outcome)
    (hplain : ∀ executions, outcome ≠ .deferred executions) :
    (cache.prepareDecision query threshold request).1 = .outcome outcome true := by
  have hlookup : CacheEntries.outcome cache.nextUse.entries (normalizePreparedQuery query) =
      some outcome := hcached
  cases outcome with
  | prepared entry | literal diagnostic => simp only [PreparedCache.prepareDecision, hlookup]
  | deferred executions => exact absurd rfl (hplain executions)

theorem decision_deferred {executions : Nat}
    (hcached : cache.outcomeOf (normalizePreparedQuery query) = some (.deferred executions))
    (hroom : executions < usizeMax) :
    (cache.prepareDecision query threshold request).1 = .prepare ↔
      request = .force ∨ request = .execute ∧ threshold ≠ 0 ∧ threshold ≤ executions + 1 := by
  have hlookup : CacheEntries.outcome cache.nextUse.entries (normalizePreparedQuery query) =
      some (.deferred executions) := hcached
  have hcounted : saturatingAdd executions 1 = executions + 1 := by
    simp only [saturatingAdd]
    omega
  cases request with
  | declare | force => simp [PreparedCache.prepareDecision, hlookup]
  | execute =>
    simp only [PreparedCache.prepareDecision, hlookup, hcounted]
    by_cases hbelow : threshold = 0 ∨ executions + 1 < threshold
    · simp only [if_pos hbelow]
      simp
      omega
    · simp only [if_neg hbelow]
      simp
      omega

theorem decision_drops {executions : Nat}
    (hcached : cache.outcomeOf (normalizePreparedQuery query) = some (.deferred executions))
    (hprepare : request = .force ∨ request = .execute ∧ threshold ≠ 0 ∧ threshold ≤ executions + 1) :
    (CacheCall.prepareDecision query threshold request).effect cache =
      .drop (normalizePreparedQuery query) := by
  simp only [CacheCall.effect, hcached, CacheCall.decisionEffect]
  rcases hprepare with rfl | ⟨rfl, hpositive, hreached⟩
  · rfl
  · exact if_neg (by omega)

theorem decision_absent
    (habsent : cache.outcomeOf (normalizePreparedQuery query) = none) :
    (cache.prepareDecision query threshold request).1 = .prepare ↔
      request = .force ∨ threshold = 1 := by
  have hlookup : CacheEntries.outcome cache.nextUse.entries (normalizePreparedQuery query) =
      none := habsent
  simp only [PreparedCache.prepareDecision, hlookup]
  by_cases hdefer : request ≠ .force ∧ threshold ≠ 1
  · simp [hdefer]
  · simp only [if_neg hdefer]
    simp
    tauto

end Decision

theorem prepared_cache_is_bounded_lru (capacity : Nat) (hcapacity : 0 < capacity)
    (calls : List CacheCall) (hsettled : ∀ call ∈ calls, call.Settled)
    (huses : totalUses (.new capacity hcapacity) calls < 2 ^ 64)
    (before after : List CacheCall) (call : CacheCall) (hcalls : calls = before ++ call :: after) :
    BoundedLru (.new capacity hcapacity) before call
      (runCalls (.new capacity hcapacity) before)
      (call.apply (runCalls (.new capacity hcapacity) before)) := by
  have hstart := LruCache.new capacity hcapacity
  generalize hnew : PreparedCache.new capacity hcapacity = start at hstart huses ⊢
  have hzero : start.useCounter = 0 := by rw [← hnew]; rfl
  have hfresh : ∀ key, start.outcomeOf key = none := by
    intro key
    rw [← hnew]
    rfl
  subst hcalls
  have hcall := hsettled call (by simp)
  have hbefore : ∀ other ∈ before, other.Settled := fun other h => hsettled other (by simp [h])
  rw [totalUses_append, totalUses] at huses
  have hmax : usizeMax = 2 ^ 64 - 1 := rfl
  obtain ⟨hcache, hcounter⟩ := LruCache.run hstart hzero before hbefore (by omega)
  have hroom : (runCalls start before).useCounter + call.uses (runCalls start before) ≤ usizeMax := by
    omega
  have hnext := hcache.apply hcall hroom
  refine ⟨hnext.size, evicted_key_kept hcache hcall hroom,
    fun key => evicted_full hcache hcall hroom, fun key => touched_not_evicted hcache hcall hroom,
    ?_, ?_, ?_, ?_, ?_, ?_⟩
  · intro key entry hprepared
    rcases outcomeOf_apply hcache hcall hroom key with heffect | ⟨hevicted, -⟩
    · rw [heffect, hprepared]
      rcases effect_prepared call hprepared with hkept | hchanged
      · exact .inl hkept
      · exact .inr (.inr hchanged)
    · exact .inr (.inl hevicted)
  · intro key diagnostic hliteral
    rcases outcomeOf_apply hcache hcall hroom key with heffect | ⟨hevicted, -⟩
    · rw [heffect, hliteral]
      rcases effect_literal call hliteral with hkept | hchanged
      · exact .inl hkept
      · exact .inr (.inr hchanged)
    · exact .inr (.inl hevicted)
  · intro query threshold request outcome _ hcached hplain
    exact decision_cached hcached hplain
  · intro key executions hdeferred
    refine counted_run hstart hzero key (before ++ [call]) ?_ ?_ executions ?_ (hfresh key)
    · intro other hother
      rcases List.mem_append.mp hother with hother | hother
      · exact hbefore other hother
      · rw [List.mem_singleton.mp hother]
        exact hcall
    · rw [totalUses_append]
      simp only [totalUses]
      omega
    · rw [runCalls_append]
      exact hdeferred
  · intro query threshold request executions hquery hdeferred
    subst hquery
    have huse : (CacheCall.prepareDecision query threshold request).uses (runCalls start before) = 1 :=
      rfl
    have hless : executions < usizeMax := by
      have hle := hcache.sorted.deferred_le hdeferred
      omega
    have hdecision : ((runCalls start before).prepareDecision query threshold request).1 = .prepare ↔
        request = .force ∨ request = .execute ∧ threshold ≠ 0 ∧ threshold ≤ executions + 1 :=
      decision_deferred hdeferred hless
    refine ⟨hdecision, fun hprepare => ?_⟩
    rcases outcomeOf_apply hcache hcall hroom (normalizePreparedQuery query) with
      heffect | ⟨-, hnone⟩
    · rw [heffect, decision_drops hdeferred (hdecision.mp hprepare)]
      exact if_pos rfl
    · exact hnone
  · intro query threshold request _ habsent
    exact decision_absent habsent

theorem deferred_query_run_is_bounded_lru :
    BoundedLru (.new 1 (by decide)) [.prepareDecision [120] 3 .execute] (.insert [121] ⟨7, [], []⟩)
      (runCalls (.new 1 (by decide)) [.prepareDecision [120] 3 .execute])
      ((CacheCall.insert [121] ⟨7, [], []⟩).apply
        (runCalls (.new 1 (by decide)) [.prepareDecision [120] 3 .execute])) := by
  refine prepared_cache_is_bounded_lru 1 (by decide)
    [.prepareDecision [120] 3 .execute, .insert [121] ⟨7, [], []⟩] ?_ (by decide) _ [] _ rfl
  intro call hcall
  rcases List.mem_cons.mp hcall with rfl | hcall
  · trivial
  · rw [List.mem_singleton.mp hcall]
    exact (by decide : normalizePreparedQuery (normalizePreparedQuery [121]) =
      normalizePreparedQuery [121])

-- x; ; is cached under x; and looked up again under x
theorem doubled_terminator_overwrites_prepared :
    ¬ BoundedLru (.new 1 (by decide)) [.insert [120, 59, 32, 59] ⟨7, [], []⟩]
      (.insert [120, 59, 32, 59] ⟨8, [], []⟩)
      (runCalls (.new 1 (by decide)) [.insert [120, 59, 32, 59] ⟨7, [], []⟩])
      ((CacheCall.insert [120, 59, 32, 59] ⟨8, [], []⟩).apply
        (runCalls (.new 1 (by decide)) [.insert [120, 59, 32, 59] ⟨7, [], []⟩])) := by
  intro h
  rcases h.prepared_stays [120, 59] ⟨7, [], []⟩ (by decide) with
    hstays | hevicted | hclear | ⟨query, hremove, -⟩ | ⟨query, diagnostic, hreplace, -⟩
  · exact absurd hstays (by decide)
  · exact absurd hevicted.2 (by decide)
  · cases hclear
  · cases hremove
  · cases hreplace

end MonetdbAdbc.Driver
