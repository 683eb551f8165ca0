import MonetdbAdbc.Library.Transition

namespace MonetdbAdbc.Driver.PlanHandles
open Transition

-- Where the drop of an entry stands; live entries still have references.
inductive Phase where
  | live
  | dropping
  | checked
  | locked
  | queueing
  | released
  | gone
  deriving DecidableEq, Repr

structure Handle where
  id : Nat
  generation : BitVec 64
  references : Nat
  phase : Phase
  deriving DecidableEq, Repr

inductive Lock where
  | free
  | dropper
  | acquired
  | draining
  | held
  deriving DecidableEq, Repr

structure State where
  handles : List Handle
  generation : BitVec 64
  lock : Lock
  pendingDeallocations : List Nat
  drained : List Nat
  deallocated : List Nat
  deriving DecidableEq, Repr

inductive Action where
  | new (id : Nat)
  | clone (index : Nat)
  | dropReference (index : Nat)
  | upgradeFails (index : Nat)
  | compareGeneration (index : Nat)
  | tryLock (index : Nat)
  | pushPending (index : Nat)
  | tryDeallocate (index : Nat)
  | unlockDropper (index : Nat)
  | invalidatePreparedCache
  | lockConnection
  | drainPending
  | tryDeallocatePending
  | finishDraining
  | unlock
  deriving DecidableEq, Repr

def State.start : State := ⟨[], 0, .free, [], [], []⟩

def Handle.referenceDropped (handle : Handle) : Handle :=
  { handle with
    references := handle.references - 1
    phase := if handle.references ≤ 1 then .dropping else .live }

def State.put (s : State) (index : Nat) (handle : Handle) : State :=
  { s with handles := s.handles.set index handle }

def onHandle (s : State) (index : Nat) (phase : Phase) (f : Handle → State) : Option State :=
  match s.handles[index]? with
  | some handle => if handle.phase = phase then some (f handle) else none
  | none => none

def step (s : State) : Action → Option State
  -- the server numbers the statements of a session without reuse
  | .new id =>
    if s.handles.all (·.id ≠ id) then
      some { s with handles := s.handles ++ [⟨id, s.generation, 1, .live⟩] }
    else none
  | .clone index => onHandle s index .live fun handle =>
      s.put index { handle with references := handle.references + 1 }
  | .dropReference index => onHandle s index .live fun handle => s.put index handle.referenceDropped
  | .upgradeFails index => onHandle s index .dropping fun handle =>
      s.put index { handle with phase := .gone }
  | .compareGeneration index => onHandle s index .dropping fun handle =>
      s.put index { handle with
        phase := if handle.generation = s.generation then .checked else .gone }
  | .tryLock index => onHandle s index .checked fun handle =>
      if s.lock = .free then { s.put index { handle with phase := .locked } with lock := .dropper }
      else s.put index { handle with phase := .queueing }
  | .pushPending index => onHandle s index .queueing fun handle =>
      { s.put index { handle with phase := .gone } with
        pendingDeallocations := s.pendingDeallocations ++ [handle.id] }
  | .tryDeallocate index => onHandle s index .locked fun handle =>
      { s.put index { handle with phase := .released } with
        deallocated := s.deallocated ++ [handle.id] }
  | .unlockDropper index => onHandle s index .released fun handle =>
      { s.put index { handle with phase := .gone } with lock := .free }
  | .invalidatePreparedCache => some { s with generation := s.generation + 1 }
  | .lockConnection => if s.lock = .free then some { s with lock := .acquired } else none
  | .drainPending =>
    if s.lock = .acquired then
      some { s with lock := .draining, pendingDeallocations := [], drained := s.pendingDeallocations }
    else none
  | .tryDeallocatePending =>
    match s.lock, s.drained with
    | .draining, id :: drained =>
      some { s with drained := drained, deallocated := s.deallocated ++ [id] }
    | _, _ => none
  | .finishDraining =>
    if s.lock = .draining ∧ s.drained = [] then some { s with lock := .held } else none
  | .unlock => if s.lock = .held then some { s with lock := .free } else none

def passes (s : State) : Action → Option Nat
  | .tryDeallocate index =>
    match s.handles[index]? with
    | some handle => if handle.phase = .locked then some handle.id else none
    | none => none
  | .tryDeallocatePending =>
    match s.lock, s.drained with
    | .draining, id :: _ => some id
    | _, _ => none
  | _ => none

def Phase.compared : Phase → Bool
  | .checked | .locked | .queueing => true
  | _ => false

def Phase.settled : Phase → Bool
  | .released | .gone => true
  | _ => false

def InFlight (s : State) (handle : Handle) : Prop :=
  handle.phase.compared = true ∨ handle.id ∈ s.drained ++ s.pendingDeallocations

instance (s : State) (handle : Handle) : Decidable (InFlight s handle) :=
  inferInstanceAs (Decidable (_ ∨ _))

-- Invalidation waits until no release is between its generation check and try_deallocate.
def Undisturbed (s : State) : Action → Prop
  | .invalidatePreparedCache => ∀ handle ∈ s.handles, ¬ InFlight s handle
  | _ => True

def State.ids (s : State) : List Nat := s.deallocated ++ (s.drained ++ s.pendingDeallocations)

structure Invariant (s : State) : Prop where
  distinct : (s.handles.map Handle.id).Nodup
  unreferenced : ∀ handle ∈ s.handles, handle.phase ≠ .live → handle.references = 0
  owned : ∀ id ∈ s.ids, ∃ handle ∈ s.handles, handle.id = id ∧ handle.phase.settled = true
  once : s.ids.Nodup
  current : ∀ handle ∈ s.handles, InFlight s handle → handle.generation = s.generation

theorem onHandle_some {s t : State} {index : Nat} {phase : Phase} {f : Handle → State}
    (h : onHandle s index phase f = some t) :
    ∃ before handle after, s.handles = before ++ handle :: after ∧ before.length = index ∧
      handle.phase = phase ∧ t = f handle := by
  rw [onHandle] at h
  cases hhandle : s.handles[index]? with
  | none => simp [hhandle] at h
  | some handle =>
    simp only [hhandle] at h
    split_ifs at h with hphase
    obtain ⟨hlt, hget⟩ := List.getElem?_eq_some_iff.mp hhandle
    refine ⟨s.handles.take index, handle, s.handles.drop (index + 1), ?_, ?_, hphase,
      (Option.some.inj h).symm⟩
    · rw [← hget, List.getElem_cons_drop, List.take_append_drop]
    · rw [List.length_take]
      omega

theorem put_split {s : State} {before after : List Handle} {handle next : Handle}
    (h : s.handles = before ++ handle :: after) :
    s.put before.length next = { s with handles := before ++ next :: after } := by
  rw [State.put, h, List.set_append_right _ _ (le_refl _), Nat.sub_self, List.set_cons_zero]

theorem mem_put {s : State} {before after : List Handle} {handle next : Handle}
    (h : s.handles = before ++ handle :: after) : next ∈ (s.put before.length next).handles := by
  rw [put_split h]
  simp

namespace Invariant
variable {s t : State} {handle : Handle}

theorem start : Invariant .start :=
  ⟨by simp [State.start], by simp [State.start], by simp [State.start, State.ids],
    by simp [State.start, State.ids], by simp [State.start]⟩

theorem unique (h : Invariant s) {a b : Handle} (ha : a ∈ s.handles) (hb : b ∈ s.handles)
    (hid : a.id = b.id) : a = b := List.inj_on_of_nodup_map h.distinct ha hb hid

theorem fresh (h : Invariant s) (hmem : handle ∈ s.handles)
    (hsettled : handle.phase.settled = false) : handle.id ∉ s.ids := by
  intro hid
  obtain ⟨owner, howner, hsame, howned⟩ := h.owned handle.id hid
  rw [h.unique howner hmem hsame, hsettled] at howned
  cases howned

theorem put {before after : List Handle} {next : Handle} (h : Invariant s)
    (hsplit : s.handles = before ++ handle :: after) (hid : next.id = handle.id)
    (hgeneration : next.generation = handle.generation)
    (hreferences : next.phase ≠ .live → next.references = 0)
    (hsettled : handle.phase.settled = true → next.phase.settled = true)
    (hcompared : next.phase.compared = true → handle.generation = s.generation) :
    Invariant (s.put before.length next) := by
  rw [put_split hsplit]
  have hmem : ∀ other, other ∈ before ++ next :: after → other = next ∨ other ∈ s.handles := by
    intro other hother
    rw [hsplit]
    simp only [List.mem_append, List.mem_cons] at hother ⊢
    tauto
  have hhandle : handle ∈ s.handles := by simp [hsplit]
  refine ⟨?_, ?_, ?_, h.once, ?_⟩
  · have hdistinct := h.distinct
    rw [hsplit] at hdistinct
    simpa [hid] using hdistinct
  · intro other hother
    rcases hmem other hother with rfl | hother
    · exact hreferences
    · exact h.unreferenced other hother
  · intro id hmemId
    obtain ⟨owner, howner, hsame, howned⟩ := h.owned id hmemId
    by_cases heq : owner = handle
    · exact ⟨next, by simp, by rw [hid, ← heq, hsame], hsettled (heq ▸ howned)⟩
    · refine ⟨owner, ?_, hsame, howned⟩
      rw [hsplit] at howner
      simp only [List.mem_append, List.mem_cons] at howner ⊢
      tauto
  · intro other hother hflight
    rcases hmem other hother with rfl | hother
    · rw [hgeneration]
      rcases hflight with hphase | hqueued
      · exact hcompared hphase
      · exact h.current handle hhandle (.inr (hid ▸ hqueued))
    · exact h.current other hother hflight

theorem moved {before after : List Handle} (h : Invariant s)
    (hsplit : s.handles = before ++ handle :: after) (phase : Phase) (hdead : handle.phase ≠ .live)
    (hsettled : handle.phase.settled = true → phase.settled = true)
    (hcompared : phase.compared = true → handle.generation = s.generation) :
    Invariant (s.put before.length { handle with phase := phase }) :=
  h.put hsplit rfl rfl (fun _ => h.unreferenced handle (by simp [hsplit]) hdead) hsettled hcompared

theorem lists (h : Invariant s) (hhandles : t.handles = s.handles)
    (hgeneration : t.generation = s.generation) (hids : t.ids.Sublist s.ids)
    (hqueued : t.drained ++ t.pendingDeallocations ⊆ s.drained ++ s.pendingDeallocations) :
    Invariant t := by
  refine ⟨hhandles ▸ h.distinct, hhandles ▸ h.unreferenced, ?_, h.once.sublist hids, ?_⟩
  · intro id hid
    rw [hhandles]
    exact h.owned id (hids.subset hid)
  · intro handle hhandle hflight
    rw [hhandles] at hhandle
    rw [hgeneration]
    exact h.current handle hhandle (hflight.imp_right fun hmem => hqueued hmem)

theorem locked (h : Invariant s) (lock : Lock) : Invariant { s with lock := lock } :=
  h.lists rfl rfl (List.Sublist.refl _) (List.Subset.refl _)

theorem pushed (h : Invariant s) (hmem : handle ∈ s.handles)
    (hsettled : handle.phase.settled = true) (hfresh : handle.id ∉ s.ids)
    (hgeneration : handle.generation = s.generation) :
    Invariant { s with pendingDeallocations := s.pendingDeallocations ++ [handle.id] } := by
  have hids : State.ids { s with pendingDeallocations := s.pendingDeallocations ++ [handle.id] } =
      s.ids ++ [handle.id] := by simp [State.ids]
  refine ⟨h.distinct, h.unreferenced, ?_, ?_, ?_⟩
  · intro id hid
    rw [hids, List.mem_append, List.mem_singleton] at hid
    rcases hid with hid | rfl
    · exact h.owned id hid
    · exact ⟨handle, hmem, rfl, hsettled⟩
  · rw [hids]
    exact (List.perm_append_singleton _ _).nodup_iff.mpr (List.nodup_cons.mpr ⟨hfresh, h.once⟩)
  · intro other hother hflight
    by_cases hsame : other.id = handle.id
    · rw [h.unique hother hmem hsame]
      exact hgeneration
    · refine h.current other hother (hflight.imp_right fun hqueued => ?_)
      simpa [hsame, or_assoc] using hqueued

theorem deallocated (h : Invariant s) (hmem : handle ∈ s.handles)
    (hsettled : handle.phase.settled = true) (hfresh : handle.id ∉ s.ids) :
    Invariant { s with deallocated := s.deallocated ++ [handle.id] } := by
  have hids : (State.ids { s with deallocated := s.deallocated ++ [handle.id] }).Perm
      (handle.id :: s.ids) := by
    simp only [State.ids, List.append_assoc, List.singleton_append]
    exact List.perm_middle
  refine ⟨h.distinct, h.unreferenced, ?_, ?_, h.current⟩
  · intro id hid
    rcases List.mem_cons.mp (hids.subset hid) with rfl | hid
    · exact ⟨handle, hmem, rfl, hsettled⟩
    · exact h.owned id hid
  · exact hids.nodup_iff.mpr (List.nodup_cons.mpr ⟨hfresh, h.once⟩)

end Invariant

namespace Invariant
variable {s t : State}

theorem new (h : Invariant s) {id : Nat} (hnew : ∀ handle ∈ s.handles, handle.id ≠ id) :
    Invariant { s with handles := s.handles ++ [⟨id, s.generation, 1, .live⟩] } := by
  have hmem : ∀ handle, handle ∈ s.handles ++ [(⟨id, s.generation, 1, .live⟩ : Handle)] →
      handle ∈ s.handles ∨ handle = ⟨id, s.generation, 1, .live⟩ := by simp
  refine ⟨?_, ?_, ?_, h.once, ?_⟩
  · rw [List.map_append]
    refine (List.perm_append_singleton _ _).nodup_iff.mpr (List.nodup_cons.mpr ⟨?_, h.distinct⟩)
    simpa using hnew
  · intro handle hhandle hphase
    rcases hmem handle hhandle with hhandle | rfl
    · exact h.unreferenced handle hhandle hphase
    · exact absurd rfl hphase
  · intro other hother
    obtain ⟨handle, hhandle, hsame⟩ := h.owned other hother
    exact ⟨handle, List.mem_append_left _ hhandle, hsame⟩
  · intro handle hhandle hflight
    rcases hmem handle hhandle with hhandle | rfl
    · exact h.current handle hhandle hflight
    · rfl

theorem invalidated (h : Invariant s) (hidle : ∀ handle ∈ s.handles, ¬ InFlight s handle) :
    Invariant { s with generation := s.generation + 1 } :=
  ⟨h.distinct, h.unreferenced, h.owned, h.once,
    fun handle hhandle hflight => absurd hflight (hidle handle hhandle)⟩

theorem step (h : Invariant s) {action : Action} (hundisturbed : Undisturbed s action)
    (hstep : step s action = some t) : Invariant t := by
  cases action with
  | new id =>
    simp only [PlanHandles.step] at hstep
    split_ifs at hstep with hnew
    cases hstep
    exact h.new (by simpa using hnew)
  | clone index =>
    obtain ⟨before, handle, after, hsplit, rfl, hphase, rfl⟩ := onHandle_some hstep
    exact h.put hsplit rfl rfl (fun hdead => absurd hphase hdead) id (by simp [hphase, Phase.compared])
  | dropReference index =>
    obtain ⟨before, handle, after, hsplit, rfl, hphase, rfl⟩ := onHandle_some hstep
    refine h.put hsplit rfl rfl ?_ (by simp [hphase, Phase.settled]) ?_
    · intro hdead
      simp only [Handle.referenceDropped] at hdead ⊢
      split_ifs at hdead with hlast
      · omega
      · exact absurd rfl hdead
    · simp only [Handle.referenceDropped]
      split_ifs <;> simp [Phase.compared]
  | upgradeFails index =>
    obtain ⟨before, handle, after, hsplit, rfl, hphase, rfl⟩ := onHandle_some hstep
    exact h.moved hsplit _ (by simp [hphase]) (fun _ => rfl) (by simp [Phase.compared])
  | compareGeneration index =>
    obtain ⟨before, handle, after, hsplit, rfl, hphase, rfl⟩ := onHandle_some hstep
    refine h.moved hsplit _ (by simp [hphase]) (by simp [hphase, Phase.settled]) ?_
    split_ifs with hsame
    · exact fun _ => hsame
    · simp [Phase.compared]
  | tryLock index =>
    obtain ⟨before, handle, after, hsplit, rfl, hphase, rfl⟩ := onHandle_some hstep
    have hcurrent := h.current handle (by simp [hsplit]) (.inl (by rw [hphase]; rfl))
    have hmoved (phase : Phase) : Invariant (s.put before.length { handle with phase := phase }) :=
      h.moved hsplit phase (by simp [hphase]) (by simp [hphase, Phase.settled]) fun _ => hcurrent
    split_ifs
    · exact (hmoved .locked).locked .dropper
    · exact hmoved _
  | pushPending index =>
    obtain ⟨before, handle, after, hsplit, rfl, hphase, rfl⟩ := onHandle_some hstep
    have hmem : handle ∈ s.handles := by simp [hsplit]
    have hcurrent := h.current handle hmem (.inl (by rw [hphase]; rfl))
    have hfresh := h.fresh hmem (by rw [hphase]; rfl)
    have hgone := h.moved hsplit .gone (by simp [hphase]) (fun _ => rfl) (by simp [Phase.compared])
    have hpushed := hgone.pushed (mem_put hsplit) rfl hfresh hcurrent
    exact hpushed
  | tryDeallocate index =>
    obtain ⟨before, handle, after, hsplit, rfl, hphase, rfl⟩ := onHandle_some hstep
    have hmem : handle ∈ s.handles := by simp [hsplit]
    have hfresh := h.fresh hmem (by rw [hphase]; rfl)
    have hreleased := h.moved hsplit .released (by simp [hphase]) (fun _ => rfl)
      (by simp [Phase.compared])
    have hdeallocated := hreleased.deallocated (mem_put hsplit) rfl hfresh
    exact hdeallocated
  | unlockDropper index =>
    obtain ⟨before, handle, after, hsplit, rfl, hphase, rfl⟩ := onHandle_some hstep
    have hgone := h.moved hsplit .gone (by simp [hphase]) (fun _ => rfl) (by simp [Phase.compared])
    exact hgone.locked .free
  | invalidatePreparedCache =>
    cases hstep
    exact h.invalidated hundisturbed
  | lockConnection | finishDraining | unlock =>
    simp only [PlanHandles.step] at hstep
    split_ifs at hstep
    cases hstep
    exact h.locked _
  | drainPending =>
    simp only [PlanHandles.step] at hstep
    split_ifs at hstep
    cases hstep
    refine h.lists rfl rfl ?_ ?_
    · simp [State.ids]
    · simp
  | tryDeallocatePending =>
    simp only [PlanHandles.step] at hstep
    split at hstep
    case h_1 id drained hlock hdrained =>
      cases hstep
      refine h.lists rfl rfl ?_ ?_
      · simp [State.ids, hdrained]
      · simp [hdrained]
    case h_2 => cases hstep

end Invariant

structure Released (s : State) (id : Nat) : Prop where
  first : id ∉ s.deallocated
  owner : ∃ handle ∈ s.handles, handle.id = id ∧ handle.references = 0 ∧
    handle.generation = s.generation

theorem Invariant.released {s : State} (h : Invariant s) {action : Action} {id : Nat}
    (hpasses : passes s action = some id) : Released s id := by
  cases action with
  | tryDeallocate index =>
    simp only [passes] at hpasses
    split at hpasses
    case h_1 handle hhandle =>
      split_ifs at hpasses with hphase
      cases hpasses
      have hmem := List.mem_of_getElem? hhandle
      have hfresh := h.fresh hmem (by rw [hphase]; rfl)
      refine ⟨fun hid => hfresh (List.mem_append_left _ hid), handle, hmem, rfl, ?_, ?_⟩
      · exact h.unreferenced handle hmem (by simp [hphase])
      · exact h.current handle hmem (.inl (by rw [hphase]; rfl))
    case h_2 => cases hpasses
  | tryDeallocatePending =>
    simp only [passes] at hpasses
    split at hpasses
    case h_1 next drained hlock hdrained =>
      cases hpasses
      have hqueued : id ∈ s.drained ++ s.pendingDeallocations := by simp [hdrained]
      have honce := List.nodup_append.mp h.once
      obtain ⟨handle, hmem, rfl, hsettled⟩ := h.owned id (List.mem_append_right _ hqueued)
      refine ⟨fun hid => honce.2.2 _ hid _ hqueued rfl, handle, hmem, rfl, ?_, ?_⟩
      · refine h.unreferenced handle hmem fun hlive => ?_
        rw [hlive] at hsettled
        cases hsettled
      · exact h.current handle hmem (.inr hqueued)
    case h_2 => cases hpasses
  | new other => cases hpasses
  | clone index | dropReference index | upgradeFails index | compareGeneration index
  | tryLock index | pushPending index | unlockDropper index => cases hpasses
  | invalidatePreparedCache | lockConnection | drainPending | finishDraining | unlock =>
    cases hpasses

theorem plan_handles_released_in_their_generation (actions : List Action) (s : State)
    (hrun : exec step .start actions = some s)
    (hundisturbed : Meets step Undisturbed .start actions)
    (action : Action) (id : Nat) (hpasses : passes s action = some id) : Released s id := by
  have hinvariant : Invariant s :=
    exec_invariant_of_meets (fun _ _ _ h hquiet hstep => h.step hquiet hstep) .start hundisturbed hrun
  exact hinvariant.released hpasses

def queueRelease : List Action :=
  [.invalidatePreparedCache, .new 4, .lockConnection, .drainPending, .finishDraining,
    .dropReference 0, .compareGeneration 0, .tryLock 0, .pushPending 0]

def drainRelease : List Action := [.unlock, .lockConnection, .drainPending]

def queued : State := ⟨[⟨4, 1, 0, .gone⟩], 1, .draining, [], [4], []⟩

theorem queued_release_in_its_generation :
    exec step .start (queueRelease ++ drainRelease) = some queued ∧ Released queued 4 := by
  have hrun : exec step .start (queueRelease ++ drainRelease) = some queued := by decide
  refine ⟨hrun, plan_handles_released_in_their_generation _ queued hrun ?_ .tryDeallocatePending 4 rfl⟩
  simp [queueRelease, drainRelease, Meets, Undisturbed, State.start]

theorem invalidation_overtakes_queued_release :
    ∃ s, exec step .start (queueRelease ++ .invalidatePreparedCache :: drainRelease) = some s ∧
      passes s .tryDeallocatePending = some 4 ∧ ¬ Released s 4 := by
  refine ⟨{ queued with generation := 2 }, by decide, rfl, fun h => ?_⟩
  obtain ⟨handle, hmem, -, -, hgeneration⟩ := h.owner
  rw [List.mem_singleton.mp hmem] at hgeneration
  exact absurd hgeneration (by decide)

end MonetdbAdbc.Driver.PlanHandles
