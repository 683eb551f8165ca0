import MonetdbAdbc.Sql.NormalizeScan
import MonetdbAdbc.Driver.CacheLru
import MonetdbAdbc.Driver.StaleBatch
import MonetdbAdbc.Driver.Unverified

namespace MonetdbAdbc.Driver
open LittleEndian Text Program Sql Machine

section Calls

-- insert and insert_literal look the entry up through get_outcome, which normalizes once more.
def CacheCall.keysUsed : CacheCall → List Bytes
  | .get query | .prepareDecision query _ _ | .replacePreparedWithLiteral query _ _
  | .removeIfId query _ => [normalizePreparedQuery query]
  | .insert query _ | .insertLiteral query _ =>
    [normalizePreparedQuery query, normalizePreparedQuery (normalizePreparedQuery query)]
  | .clear | .setCapacity _ _ => []

-- Every cache call made for a statement: by its preparation, by execute_schema, and by the plan
-- of its bound queries, which carries the normalized text.
def StatementCall (query : Bytes) (call : CacheCall) : Prop :=
  PrepareOutcomeCalls query call ∨ PrepareCachedCalls query call ∨
    PlanCalls (normalizePreparedQuery query) call

def OneKey (query : Bytes) : Prop :=
  ∃ key, ∀ call, StatementCall query call → ∀ used ∈ call.keysUsed, used = key

theorem oneKey_iff (query : Bytes) :
    OneKey query ↔
      normalizePreparedQuery (normalizePreparedQuery (normalizePreparedQuery query)) =
        normalizePreparedQuery (normalizePreparedQuery query) := by
  constructor
  · rintro ⟨key, h⟩
    have hfirst := h _ (.inr (.inl .get)) _ (List.mem_singleton_self _)
    have hsecond := h _ (.inr (.inr (.prepare .get))) _ (List.mem_singleton_self _)
    exact hsecond.trans hfirst.symm
  · intro h
    refine ⟨normalizePreparedQuery (normalizePreparedQuery query), ?_⟩
    rintro call ((_ | _ | _) | (_ | _) | (_ | _ | _ | (_ | _))) used hused
    all_goals simpa [CacheCall.keysUsed, h] using hused

end Calls

section Runs
variable {σ : Type} (server : Server σ)

-- The cache changed by a run of the given calls only.
def Through (P : CacheCall → Prop) (cache : PreparedCache) (c : Connection σ) : Prop :=
  ∃ calls : List CacheCall, (∀ call ∈ calls, P call) ∧ c.cache = calls.foldl CacheCall.apply cache

variable {P : CacheCall → Prop} {cache : PreparedCache}

theorem calling_through : Calling server P (Through P cache) where
  probe _ _ _ hc := hc
  savepointName _ _ hc := hc
  withCache := by
    rintro α f call hcall hf c ⟨calls, hcalls, hcache⟩
    refine ⟨calls ++ [call], ?_, ?_⟩
    · rw [List.forall_mem_append, List.forall_mem_singleton]
      exact ⟨hcalls, hcall⟩
    · rw [List.foldl_append, ← hcache]
      exact hf c.cache
  setFlags _ _ _ hc := hc

theorem statementCall_runs (text : Bytes) (cache : PreparedCache) :
    (∀ threshold request, Keeps (Through (StatementCall text) cache)
        (prepareOutcomeCached server text threshold request)) ∧
      Keeps (Through (StatementCall text) cache) (prepareCached server text) ∧
      ∀ (query : BoundQuery) (invocation : PreparedInvocation), query.prepared = some invocation →
        invocation.plan.query = normalizePreparedQuery text →
        Keeps (Through (StatementCall text) cache) (currentBoundQuery server query) ∧
          Keeps (Through (StatementCall text) cache) (retryBoundQuery server query) ∧
          ∀ diagnostic, Keeps (Through (StatementCall text) cache)
            (demotePreparedBoundQuery invocation diagnostic : Action σ Unit) := by
  have h : Calling server (StatementCall text) (Through (StatementCall text) cache) :=
    calling_through server
  have hinstall (slot : Nat) (entry : PreparedEntry) :
      Keeps (Through (StatementCall text) cache) (installSlot slot entry : Action σ Unit) :=
    fun _ hc => hc
  refine ⟨fun threshold request => ?_, ?_, fun query invocation hquery hplan => ?_⟩
  · exact h.keeps_prepareOutcomeCached threshold request fun _ => .inl
  · exact h.keeps_prepareCached fun _ hcall => .inr (.inl hcall)
  · have hcalls : ∀ other, query.prepared = some other → ∀ call,
        PlanCalls other.plan.query call → StatementCall text call := by
      intro other hother call hcall
      obtain rfl := Option.some.inj (hquery.symm.trans hother)
      exact .inr (.inr (hplan ▸ hcall))
    refine ⟨h.keeps_currentBoundQuery hinstall hcalls, h.keeps_retryBoundQuery hinstall hcalls,
      fun diagnostic => keeps_bind (h.withCache _ _ (hcalls invocation hquery _
        (.replace _ diagnostic)) fun _ => rfl) fun _ _ hc => hc⟩

end Runs

namespace PreparedCache

def Holds (cache : PreparedCache) (key : Bytes) (entry : PreparedEntry) : Prop :=
  cache.outcomeOf key = some (.prepared entry)

theorem outcomeOf_remove (entries : CacheEntries) (key other : Bytes) :
    CacheEntries.outcome (CacheEntries.remove entries key) other =
      if other = key then none else CacheEntries.outcome entries other := by
  have hremove := lookup_filter (entries.map fun entry => (entry.1, entry.2.outcome)) key other
  rw [← view_remove, lookup, lookup, List.find?_map, List.find?_map, Option.map_map,
    Option.map_map] at hremove
  exact hremove

theorem getOutcome_fst (cache : PreparedCache) (query : Bytes) :
    (cache.getOutcome query).1 = cache.outcomeOf (normalizePreparedQuery query) := by
  rw [getOutcome_eq]
  cases cache.outcomeOf (normalizePreparedQuery query) <;> rfl

theorem get_eq_some_iff (cache : PreparedCache) (query : Bytes) (entry : PreparedEntry) :
    (cache.get query).1 = some entry ↔ cache.Holds (normalizePreparedQuery query) entry := by
  rw [Holds, ← getOutcome_fst, get]
  rcases cache.getOutcome query with ⟨_ | _ | _ | _, after⟩ <;> simp

end PreparedCache

section Eviction
variable {σ : Type} (server : Server σ) (c : Connection σ)

theorem prepareCachedWithStatus_hit_iff (query : Bytes) (cache : PreparedCache)
    (entry : PreparedEntry) :
    (prepareCachedWithStatus server query { c with cache := cache }).1 = .ok (entry, true) ↔
      cache.Holds (normalizePreparedQuery (normalizePreparedQuery query)) entry := by
  rw [← PreparedCache.get_eq_some_iff, prepareCachedWithStatus, bind_apply, withCache_apply]
  cases hcached : (cache.get (normalizePreparedQuery query)).1 with
  | some found => simp
  | none =>
    simp only [reduceCtorEq, iff_false, bind_apply]
    rcases prepareQuery server (normalizePreparedQuery query) _ with ⟨_ | metadata, after⟩
    · exact fun h => by cases h
    · intro h
      cases (Prod.mk.inj (Except.ok.inj h)).2

-- The lookup that follows remove_if_id never answers with the entry the server lost.
def Evicts (query : Bytes) : Prop :=
  ∀ (cache : PreparedCache) (id : Nat) (entry : PreparedEntry),
    (prepareCachedWithStatus server query { c with cache := cache.removeIfId query id }).1 =
      .ok (entry, true) → entry.id ≠ id

theorem removeIfId_holds {cache : PreparedCache} {query : Bytes} {id : Nat} {entry : PreparedEntry}
    (h : (cache.removeIfId query id).Holds (normalizePreparedQuery query) entry) : entry.id ≠ id := by
  rw [PreparedCache.removeIfId] at h
  split at h
  · rename_i found hfound
    split_ifs at h with hid
    · rw [PreparedCache.Holds, PreparedCache.outcomeOf, PreparedCache.outcomeOf_remove, if_pos rfl] at h
      cases h
    · obtain ⟨⟩ := hfound.symm.trans h
      exact hid
  · rename_i hother
    exact absurd h (hother entry)

def singleEntry (key : Bytes) (entry : PreparedEntry) : PreparedCache :=
  ⟨1, [(key, ⟨.prepared entry, 0⟩)], 0, Nat.one_pos⟩

theorem evicts_iff (query : Bytes) :
    Evicts server c query ↔
      normalizePreparedQuery (normalizePreparedQuery query) = normalizePreparedQuery query := by
  constructor
  · intro hevicts
    by_contra hne
    have hholds : (singleEntry (normalizePreparedQuery (normalizePreparedQuery query))
        ⟨0, [], []⟩).Holds (normalizePreparedQuery (normalizePreparedQuery query)) ⟨0, [], []⟩ := by
      simp [PreparedCache.Holds, PreparedCache.outcomeOf, CacheEntries.outcome, singleEntry]
    have hkept : (singleEntry (normalizePreparedQuery (normalizePreparedQuery query))
        ⟨0, [], []⟩).removeIfId query 0 =
        singleEntry (normalizePreparedQuery (normalizePreparedQuery query)) ⟨0, [], []⟩ := by
      simp [PreparedCache.removeIfId, CacheEntries.outcome, singleEntry, hne]
    refine hevicts (singleEntry (normalizePreparedQuery (normalizePreparedQuery query)) ⟨0, [], []⟩)
      0 ⟨0, [], []⟩ ?_ rfl
    rw [prepareCachedWithStatus_hit_iff, hkept]
    exact hholds
  · intro hsame cache id entry hhit
    rw [prepareCachedWithStatus_hit_iff, hsame] at hhit
    exact removeIfId_holds hhit

end Eviction

section Statements
variable {σ : Type} {isAlphanumeric : Bytes → Bool} {query : Bytes}

def KeepsText (isAlphanumeric : Bytes → Bool) (query : Bytes) : Prop :=
  ∃ scan lead tail own, scanQuery isAlphanumeric query = .ok scan ∧
    KeepsStatement isAlphanumeric query scan lead tail own

theorem compileQuery_scan {template : QueryTemplate}
    (h : compileQuery isAlphanumeric query = .ok template) :
    ∃ scan, scanQuery isAlphanumeric query = .ok scan ∧ scan.statements.length ≤ 1 := by
  rw [compileQuery] at h
  cases hscan : scanQuery isAlphanumeric query with
  | error error =>
    rw [hscan] at h
    cases h
  | ok scan =>
    rw [hscan] at h
    simp only [bind, Except.bind] at h
    split_ifs at h with hmany
    exact ⟨scan, rfl, Nat.le_of_not_lt hmany⟩

theorem keepsText_iff (hvalid : Utf8.valid query = true) {template : QueryTemplate}
    (h : compileQuery isAlphanumeric query = .ok template) :
    KeepsText isAlphanumeric query ↔ (HasStatement isAlphanumeric query →
      HasStatement isAlphanumeric (normalizePreparedQuery query)) := by
  obtain ⟨scan, hscan, hone⟩ := compileQuery_scan h
  rw [← keepsStatement_iff hvalid hscan hone]
  constructor
  · rintro ⟨other, lead, tail, own, hother, hkeeps⟩
    obtain rfl := Except.ok.inj (hscan.symm.trans hother)
    exact ⟨lead, tail, own, hkeeps⟩
  · rintro ⟨lead, tail, own, hkeeps⟩
    exact ⟨scan, lead, tail, own, hscan, hkeeps⟩

theorem statement_uses_one_key_iff (server : Server σ) (c : Connection σ)
    (isAlphanumeric : Bytes → Bool) (query : Utf8.Str) (template : QueryTemplate)
    (h : compileQuery isAlphanumeric query.bytes = .ok template) :
    (KeepsText isAlphanumeric query.bytes ∧ OneKey query.bytes ∧
        Evicts server c (normalizePreparedQuery query.bytes)) ↔
      (HasStatement isAlphanumeric query.bytes →
        HasStatement isAlphanumeric (normalizePreparedQuery query.bytes)) ∧
      semicolonRuns (trim query.bytes) ≤ 2 := by
  rw [keepsText_iff query.utf8 h, oneKey_iff, evicts_iff, normalize_settles_iff, and_self]

theorem two_runs_use_one_key :
    semicolonRuns (trim (ascii "SELECT ? ; ;")) = 2 ∧
      KeepsText (fun _ => false) (ascii "SELECT ? ; ;") ∧ OneKey (ascii "SELECT ? ; ;") ∧
      Evicts planServer clearedCache (normalizePreparedQuery (ascii "SELECT ? ; ;")) := by
  have hcompile : compileQuery (fun _ => false) (ascii "SELECT ? ; ;") = .ok
      ⟨ascii "SELECT ? ; ;", [(0, 7), (8, 12)], [⟨.positional 0, false⟩], .positional 1⟩ := by
    decide +kernel
  have hruns : semicolonRuns (trim (ascii "SELECT ? ; ;")) = 2 := by
    have hone : trimEnd (trimEndMatches 59 (trim (ascii "SELECT ? ; ;"))) = ascii "SELECT ? ;" := by
      decide +kernel
    have htwo : trimEnd (trimEndMatches 59 (ascii "SELECT ? ;")) = ascii "SELECT ?" := by
      decide +kernel
    rw [semicolonRuns, if_pos (by decide +kernel), hone, semicolonRuns, if_pos (by decide +kernel),
      htwo, (semicolonRuns_eq_zero_iff _).mpr (by decide +kernel)]
  refine ⟨hruns, (statement_uses_one_key_iff planServer clearedCache (fun _ => false)
    ⟨ascii "SELECT ? ; ;", by decide⟩ _ hcompile).mpr ⟨fun _ => ?_, hruns.le⟩⟩
  exact ⟨⟨[(0, 9)], [⟨7, 8, none, false⟩], some (0, 6), false⟩, by decide +kernel, by simp⟩

def threeRuns : Bytes := ascii "SELECT ? ; ; ;"

def threeRunsPlan : PreparedPlan := ⟨normalizePreparedQuery threeRuns, 1, 0⟩

theorem third_run_keeps_lost_plan :
    let first := retryBoundQuery planServer (.ofPrepared threeRunsPlan ⟨1, [], []⟩ [] none)
      clearedCache
    let second := retryBoundQuery planServer (.ofPrepared threeRunsPlan ⟨2, [], []⟩ [] none) first.2
    (compileQuery (fun _ => false) threeRuns).toBool = true ∧
      first.1.map BoundQuery.sql = .ok (.execute 2 []) ∧
      second.1.map BoundQuery.sql = .ok (.execute 2 []) ∧
      normalizePreparedQuery (normalizePreparedQuery threeRunsPlan.query) ≠
        normalizePreparedQuery threeRunsPlan.query := by
  decide +kernel

end Statements

end MonetdbAdbc.Driver
