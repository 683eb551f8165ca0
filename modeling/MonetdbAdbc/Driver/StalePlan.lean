import MonetdbAdbc.Driver.Steady

namespace MonetdbAdbc.Driver
open LittleEndian Text Program Sql Machine

def BoundSql.executeId : BoundSql → Option Nat
  | .literal _ => none
  | .execute id _ => some id

def Command.executeIds : Command → List Nat
  | .statement sql => sql.executeId.toList
  | .script rows => rows.filterMap BoundSql.executeId
  | _ => []

def currentPlan (slot : Nat) : Nat → List Event → Option Nat
  | current, [] => some current
  | current, .installed s id :: events => currentPlan slot (if s = slot then id else current) events
  | current, .sent command _ _ :: events =>
    if ∀ id ∈ command.executeIds, id = current then currentPlan slot current events else none
  | current, .poisoned :: events => currentPlan slot current events

def UsesCurrentPlan (slot id : Nat) (events : List Event) : Prop :=
  (currentPlan slot id events).isSome

instance (slot id : Nat) (events : List Event) : Decidable (UsesCurrentPlan slot id events) :=
  inferInstanceAs (Decidable (_ = true))

theorem currentPlan_append (slot current : Nat) (events more : List Event) :
    currentPlan slot current (events ++ more) =
      (currentPlan slot current events).bind fun id => currentPlan slot id more := by
  induction events generalizing current with
  | nil => rfl
  | cons event events ih =>
    cases event with
    | installed s id | poisoned => exact ih _
    | sent command succeeded rolledBack =>
      simp only [List.cons_append, currentPlan]
      split_ifs
      · exact ih _
      · rfl

section Tracking
variable {σ : Type} {server : Server σ} {slot id : Nat} {base : List Event} {command : Command}
  {c : Connection σ}

def Tracked (slot id : Nat) (base : List Event) (c : Connection σ) : Prop :=
  ∃ events, c.events = base ++ events ∧ currentPlan slot id events = some (c.slots slot).id

def Broken (slot id : Nat) (base : List Event) (c : Connection σ) : Prop :=
  ∃ events, c.events = base ++ events ∧ currentPlan slot id events = none

theorem Tracked.send (h : Tracked slot id base c)
    (hids : ∀ e ∈ command.executeIds, e = (c.slots slot).id) :
    Tracked slot id base (send server command c).2 := by
  obtain ⟨events, hevents, hcurrent⟩ := h
  refine ⟨events ++ [.sent command (server.execute c.server command).result.toBool
    (server.execute c.server command).rolledBack], ?_, ?_⟩
  · simp [Driver.send, hevents]
  · simp only [currentPlan_append, hcurrent, Option.bind_some, currentPlan, if_pos hids, Driver.send]

theorem Tracked.broken {e : Nat} (h : Tracked slot id base c) (he : e ∈ command.executeIds)
    (hne : e ≠ (c.slots slot).id) : Broken slot id base (Driver.send server command c).2 := by
  obtain ⟨events, hevents, hcurrent⟩ := h
  refine ⟨events ++ [.sent command (server.execute c.server command).result.toBool
    (server.execute c.server command).rolledBack], ?_, ?_⟩
  · simp [Driver.send, hevents]
  · have hnot : ¬ ∀ e ∈ command.executeIds, e = (c.slots slot).id := fun hall => hne (hall e he)
    simp only [currentPlan_append, hcurrent, Option.bind_some, currentPlan, if_neg hnot]

theorem probe_executeIds (h : command.isProbe = true) : command.executeIds = [] := by
  cases command <;> simp_all [Command.isProbe, Command.executeIds]

theorem control_executeIds (h : command.isControl = true) : command.executeIds = [] := by
  cases command <;> simp_all [Command.isControl, Command.executeIds]

theorem tracked_steady : Steady server (Tracked slot id base) where
  probe command h _ hc := hc.send (by simp [probe_executeIds h])
  bookkeeping _ _ _ _ hc := hc

theorem tracked_control (command : Command) (h : command.isControl = true) :
    Keeps (Tracked slot id base) (send server command) :=
  fun _ hc => hc.send (by simp [control_executeIds h])

theorem tracked_install (s : Nat) (entry : PreparedEntry) :
    Keeps (Tracked slot id base) (installSlot s entry : Action σ Unit) := by
  rintro c ⟨events, hevents, hcurrent⟩
  refine ⟨events ++ [.installed s entry.id], ?_, ?_⟩
  · simp [installSlot, hevents]
  · by_cases hs : s = slot
    · subst hs
      simp [currentPlan_append, hcurrent, currentPlan, installSlot]
    · simp [currentPlan_append, hcurrent, currentPlan, installSlot, hs,
        Function.update_of_ne (Ne.symm hs)]

theorem tracked_poison (reason : String) :
    Keeps (Tracked slot id base) (poisonTransaction reason : Action σ Unit) := by
  rintro c ⟨events, hevents, hcurrent⟩
  simp only [poisonTransaction, update_apply]
  cases c.transactionPoison with
  | some poison => exact ⟨events, hevents, hcurrent⟩
  | none =>
    refine ⟨events ++ [.poisoned], ?_, ?_⟩
    · simp [hevents]
    · simp [currentPlan_append, hcurrent, currentPlan]

theorem broken_of_events {d : Connection σ} {more : List Event} (h : Broken slot id base c)
    (hmore : d.events = c.events ++ more) : Broken slot id base d := by
  obtain ⟨events, hevents, hcurrent⟩ := h
  refine ⟨events ++ more, ?_, ?_⟩
  · simp [hmore, hevents]
  · simp [currentPlan_append, hcurrent]

theorem broken_send (command : Command) : Keeps (Broken slot id base) (send server command) :=
  fun _ hc => broken_of_events hc rfl

theorem broken_steady : Steady server (Broken slot id base) where
  probe command _ := broken_send command
  bookkeeping _ _ _ _ hc := hc

theorem broken_poison (reason : String) :
    Keeps (Broken slot id base) (poisonTransaction reason : Action σ Unit) := by
  intro c hc
  simp only [poisonTransaction, update_apply]
  cases c.transactionPoison with
  | some poison => exact hc
  | none => exact broken_of_events hc rfl

end Tracking

section Invocation
variable {σ : Type} {server : Server σ} {slot : Nat} {c : Connection σ}

def Invokes (slot : Nat) (c : Connection σ) (query : BoundQuery) : Prop :=
  match query.prepared with
  | none => query.sql.executeId = none
  | some invocation =>
    invocation.plan.slot = slot ∧ invocation.entry.id = (c.slots slot).id ∧
      query.sql.executeId = some invocation.entry.id

def Fresh (slot : Nat) (c : Connection σ) (query : BoundQuery) : Prop :=
  ∀ id, query.sql.executeId = some id → id = (c.slots slot).id

theorem Invokes.fresh {query : BoundQuery} (h : Invokes slot c query) : Fresh slot c query := by
  intro id hid
  unfold Invokes at h
  cases hp : query.prepared with
  | none =>
    rw [hp] at h
    exact absurd (h.symm.trans hid) (by simp)
  | some invocation =>
    rw [hp] at h
    obtain ⟨_, hentry, hsql⟩ := h
    rw [hsql, Option.some.injEq] at hid
    exact hid ▸ hentry

theorem Fresh.statement {query : BoundQuery} (h : Fresh slot c query) :
    ∀ id ∈ (Command.statement query.sql).executeIds, id = (c.slots slot).id := by
  intro id hid
  simp only [Command.executeIds, Option.mem_toList] at hid
  exact h id hid

theorem Fresh.script {batch : List BoundQuery} (h : ∀ query ∈ batch, Fresh slot c query) :
    ∀ id ∈ (Command.script (batch.map (·.sql))).executeIds, id = (c.slots slot).id := by
  intro id hid
  simp only [Command.executeIds, List.filterMap_map, List.mem_filterMap, Function.comp] at hid
  obtain ⟨query, hquery, hid⟩ := hid
  exact h query hquery id hid

theorem slots_steady (J : (Nat → PreparedEntry) → Prop) :
    Steady server fun c => J c.slots where
  probe _ _ _ hc := hc
  bookkeeping _ _ _ _ hc := hc

theorem invokes_steady (query : BoundQuery) : Steady server fun c => Invokes slot c query :=
  slots_steady fun slots => match query.prepared with
    | none => query.sql.executeId = none
    | some invocation =>
      invocation.plan.slot = slot ∧ invocation.entry.id = (slots slot).id ∧
        query.sql.executeId = some invocation.entry.id

theorem installSlot_spec {P E : Connection σ → Prop} (entry : PreparedEntry) :
    Spec P (installSlot slot entry) (fun _ c => c.slots slot = entry) E :=
  fun c _ => ⟨fun _ _ => by simp [installSlot_apply], fun _ h => (nomatch h)⟩

theorem currentBoundQuery_invokes (query : BoundQuery) :
    Spec (fun c => Invokes slot c query) (currentBoundQuery server query)
      (fun query c => Invokes slot c query) fun _ => True := by
  unfold currentBoundQuery
  cases hprepared : query.prepared with
  | none => exact Spec.pure fun _ hc => hc
  | some invocation =>
    refine Spec.read fun c _ => ?_
    cases (c.flags invocation.entry.id).literalFallback with
    | some fallback =>
      cases invocation.literalSql with
      | none => exact Spec.fail fun _ _ => trivial
      | some sql => exact Spec.pure fun _ _ => rfl
    | none =>
      refine Spec.bind (((invokes_steady query).keeps_refreshedEntry _).spec fun _ _ => trivial)
        fun entry => ?_
      unfold Invokes
      rw [hprepared]
      refine Spec.assume fun hslot => ?_
      by_cases hid : entry.id = invocation.entry.id
      · rw [onlyIf_neg (not_not.mpr hid), Program.pure_bind]
        exact Spec.pure fun _ hc => ⟨hslot, hid.trans hc.1, rfl⟩
      · rw [onlyIf_pos hid, hslot]
        exact Spec.bind (installSlot_spec entry) fun _ => Spec.pure fun _ hc => ⟨hslot, by rw [hc], rfl⟩

theorem replacedEntry_slot (invocation : PreparedInvocation) :
    Spec (fun c => (c.slots invocation.plan.slot).id = invocation.entry.id)
      (replacedEntry server invocation)
      (fun entry c => entry.id = (c.slots invocation.plan.slot).id) fun _ => True := by
  have hsteady : Steady server fun d =>
      (d.slots invocation.plan.slot).id = invocation.entry.id :=
    slots_steady fun slots => (slots invocation.plan.slot).id = invocation.entry.id
  refine Spec.read fun c hc => ?_
  rw [if_neg (not_not.mpr hc)]
  refine Spec.bind ((hsteady.keeps_withCache _).spec fun _ _ => trivial) fun _ => ?_
  refine Spec.bind ((hsteady.keeps_prepareCached _).spec fun _ _ => trivial) fun refreshed => ?_
  refine Spec.read fun d hd => ?_
  rw [if_pos hd]
  exact Spec.bind (installSlot_spec refreshed) fun _ => Spec.pure fun _ hc => by rw [hc]

theorem retryBoundQuery_invokes (query : BoundQuery) :
    Spec (fun c => Invokes slot c query) (retryBoundQuery server query)
      (fun query c => Invokes slot c query) fun _ => True := by
  unfold retryBoundQuery
  cases hprepared : query.prepared with
  | none => exact Spec.fail fun _ _ => trivial
  | some invocation =>
    refine Spec.bind (Q := fun entry c =>
      invocation.plan.slot = slot ∧ entry.id = (c.slots slot).id) (fun c hc => ?_) fun entry => ?_
    · unfold Invokes at hc
      rw [hprepared] at hc
      obtain ⟨rfl, hentry, -⟩ := hc
      exact (replacedEntry_slot invocation c hentry.symm).imp_left fun hok entry h => ⟨rfl, hok entry h⟩
    · have hsteady : Steady server fun c =>
          invocation.plan.slot = slot ∧ entry.id = (c.slots slot).id :=
        slots_steady fun slots => invocation.plan.slot = slot ∧ entry.id = (slots slot).id
      refine Spec.read fun c _ => Spec.bind ((keeps_onlyIf fun _ =>
        hsteady.keeps_markVerified _).spec fun _ _ => trivial) fun _ => ?_
      exact Spec.pure fun _ hc => ⟨hc.1, hc.2, rfl⟩

end Invocation

end MonetdbAdbc.Driver
