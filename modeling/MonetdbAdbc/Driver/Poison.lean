import MonetdbAdbc.Driver.Session
import MonetdbAdbc.Driver.UpdateRows
import MonetdbAdbc.Sql.SplitStatements

namespace MonetdbAdbc.Driver
open LittleEndian Text Program Sql Machine

section Window
variable (isAlphanumeric : Bytes → Bool)

def Event.poisons (isOpen : Bool) : Event → Bool
  | .poisoned => true
  | .sent _ _ rolledBack => isOpen && !rolledBack
  | .installed _ _ => isOpen

-- The transaction was poisoned and no full ROLLBACK has succeeded since.
def poisonOpen (events : List Event) : Bool := events.foldl Event.poisons false

def Command.statements : Command → List Bytes
  | .statement sql => heldStatements isAlphanumeric sql.text
  | .script rows => heldStatements isAlphanumeric (updateScript (rows.map BoundSql.text))
  | _ => []

def Command.commits (command : Command) : Bool :=
  match command with
  | .commit => true
  | .setAutocommit enabled => enabled
  | command => (command.statements isAlphanumeric).any fun statement =>
    (statementEffects statement).commit

def CommitSafe (events : List Event) : Prop :=
  ∀ before command succeeded rolledBack after,
    events = before ++ .sent command succeeded rolledBack :: after → poisonOpen before = true →
      command.commits isAlphanumeric = false

variable {isAlphanumeric} {events : List Event} {event : Event}

theorem poisonOpen_snoc (events : List Event) (event : Event) :
    poisonOpen (events ++ [event]) = event.poisons (poisonOpen events) :=
  List.foldl_append

theorem commitSafe_nil : CommitSafe isAlphanumeric [] := by
  intro before command succeeded rolledBack after h
  simp at h

theorem CommitSafe.snoc (h : CommitSafe isAlphanumeric events)
    (hevent : ∀ command succeeded rolledBack, event = .sent command succeeded rolledBack →
      poisonOpen events = true → command.commits isAlphanumeric = false) :
    CommitSafe isAlphanumeric (events ++ [event]) := by
  intro before command succeeded rolledBack after heq
  rcases List.eq_nil_or_concat after with rfl | ⟨init, last, rfl⟩
  · obtain ⟨rfl, hlast⟩ := List.append_inj' heq rfl
    exact hevent command succeeded rolledBack (List.singleton_inj.mp hlast)
  · rw [List.concat_eq_append, ← List.cons_append, ← List.append_assoc] at heq
    obtain ⟨rfl, -⟩ := List.append_inj' heq rfl
    exact h before command succeeded rolledBack init rfl

theorem commits_eq_false {text : Bytes} {command : Command}
    (hcommand : command.commits isAlphanumeric =
      (heldStatements isAlphanumeric text).any fun statement => (statementEffects statement).commit)
    (h : ∀ statement ∈ heldStatements isAlphanumeric text, (statementEffects statement).commit = false) :
    command.commits isAlphanumeric = false := by
  rw [hcommand, List.any_eq_false]
  exact fun statement hmem => Bool.eq_false_iff.mp (h statement hmem)

theorem commits_of_probe {command : Command} (h : command.isProbe = true) :
    command.commits isAlphanumeric = false := by
  cases command <;> first | rfl | cases h

end Window

-- What the driver relies on: a statement that begins with ROLLBACK and succeeds is a rollback to a
-- savepoint or ends the transaction, and only a COMMIT, a full ROLLBACK or the driver's own command
-- brings autocommit back.
structure World (σ : Type) where
  server : Server σ
  isAlphanumeric : Bytes → Bool
  rollsBack : ∀ s sql statement, (server.execute s (.statement sql)).result.toBool = true →
    statement ∈ heldStatements isAlphanumeric sql.text →
    (leadingSqlKeyword statement).any (isKeyword · "rollback") = true →
    (∀ command : RollbackCommand, command.text = statement → command.savepoint = []) →
    (server.execute s (.statement sql)).rolledBack = true
  staysOff : ∀ s command, command.commits isAlphanumeric = false →
    (server.execute s command).rolledBack = false → server.autocommit s ≠ .ok true →
    server.autocommit (server.execute s command).state ≠ .ok true

structure Guarded {σ : Type} (w : World σ) (c : Connection σ) : Prop where
  safe : CommitSafe w.isAlphanumeric c.events
  poisoned : poisonOpen c.events = true → c.transactionPoison.isSome = true

-- While an operation runs: whether the connection was poisoned before it began is known, and a
-- poisoned transaction is still open on the server.
structure Holding {σ : Type} (w : World σ) (unpoisoned : Prop) (c : Connection σ) : Prop extends
    Guarded w c where
  shut : unpoisoned → poisonOpen c.events = false
  off : poisonOpen c.events = true → w.server.autocommit c.server ≠ .ok true

section Sending
variable {σ : Type} {w : World σ} {unpoisoned : Prop} {c : Connection σ}

theorem Guarded.send (h : Guarded w c) {command : Command}
    (hcommit : poisonOpen c.events = true → command.commits w.isAlphanumeric = false) :
    Guarded w (send w.server command c).2 := by
  refine ⟨h.safe.snoc ?_, fun hopen => h.poisoned ?_⟩
  · rintro other succeeded rolledBack ⟨⟩
    exact hcommit
  · rw [Driver.send, poisonOpen_snoc, Event.poisons, Bool.and_eq_true] at hopen
    exact hopen.1

theorem Holding.send (h : Holding w unpoisoned c) {command : Command}
    (hcommit : poisonOpen c.events = true → command.commits w.isAlphanumeric = false) :
    Holding w unpoisoned (send w.server command c).2 := by
  have hevents : poisonOpen (Driver.send w.server command c).2.events =
      (poisonOpen c.events && !(w.server.execute c.server command).rolledBack) := by
    rw [Driver.send, poisonOpen_snoc, Event.poisons]
  refine ⟨h.toGuarded.send hcommit, fun hshut => ?_, fun hopen => ?_⟩
  · rw [hevents, h.shut hshut, Bool.false_and]
  · rw [hevents, Bool.and_eq_true, Bool.not_eq_true'] at hopen
    exact w.staysOff c.server command (hcommit hopen.1) hopen.2 (h.off hopen.1)

theorem guarded_poison (reason : String) :
    Keeps (Guarded w) (poisonTransaction reason : Action σ Unit) := by
  intro c hc
  simp only [poisonTransaction, update_apply]
  cases hpoison : c.transactionPoison with
  | some poison => exact hc
  | none => exact ⟨hc.safe.snoc (by rintro _ _ _ ⟨⟩), fun _ => rfl⟩

theorem guarded_steady : Steady w.server (Guarded w) where
  probe _ hprobe _ hc := hc.send fun _ => commits_of_probe hprobe
  bookkeeping _ _ _ _ hc := ⟨hc.safe, hc.poisoned⟩

@[grind ←] theorem holding_steady :
    Steady w.server (Holding w unpoisoned) where
  probe _ hprobe _ hc := hc.send fun _ => commits_of_probe hprobe
  bookkeeping _ _ _ _ hc := ⟨⟨hc.safe, hc.poisoned⟩, hc.shut, hc.off⟩

@[grind ←] theorem holding_install (slot : Nat) (entry : PreparedEntry) :
    Keeps (Holding w unpoisoned) (installSlot slot entry : Action σ Unit) := by
  intro c hc
  have hevents : poisonOpen (installSlot slot entry c).2.events = poisonOpen c.events :=
    poisonOpen_snoc c.events (.installed slot entry.id)
  refine ⟨⟨hc.safe.snoc (by rintro _ _ _ ⟨⟩), ?_⟩, ?_, ?_⟩ <;> rw [hevents]
  · exact hc.poisoned
  · exact hc.shut
  · exact hc.off

theorem Holding.modified (h : Holding w unpoisoned c) (modified : Bool) :
    Holding w unpoisoned { c with transactionModified := modified } :=
  ⟨⟨h.safe, h.poisoned⟩, h.shut, h.off⟩

theorem Holding.weaken {other : Prop} (h : Holding w unpoisoned c)
    (hother : other → unpoisoned) : Holding w other c :=
  ⟨h.toGuarded, fun hp => h.shut (hother hp), h.off⟩

theorem Holding.applyRollback (h : Holding w unpoisoned c)
    (effects : TransactionEffects) (hrolled : effects.rollback = true → poisonOpen c.events = false) :
    Holding w unpoisoned (applyTransactionRollback effects c).2 := by
  have hmodified : Holding w unpoisoned
      (onlyIf (effects.commit ∨ effects.rollback) (setModified false) c).2 ∧
        (onlyIf (effects.commit ∨ effects.rollback) (setModified false) c).2.events = c.events := by
    unfold onlyIf
    split_ifs
    · exact ⟨h.modified false, rfl⟩
    · exact ⟨h, rfl⟩
  rw [applyTransactionRollback, bind_of_ok (t := (onlyIf (effects.commit ∨ effects.rollback)
    (setModified false) c).2) (a := ()) (by unfold onlyIf; split_ifs <;> rfl)]
  by_cases hrollback : effects.rollback = true
  · have hclosed : poisonOpen (onlyIf (effects.commit ∨ effects.rollback) (setModified false)
        c).2.events = false := by rw [hmodified.2, hrolled hrollback]
    rw [onlyIf_pos hrollback]
    refine ⟨⟨hmodified.1.safe, fun hopen => ?_⟩, hmodified.1.shut, hmodified.1.off⟩
    exact absurd (hclosed.symm.trans hopen) Bool.false_ne_true
  · rw [onlyIf_neg hrollback]
    exact hmodified.1

end Sending

section Statements
variable {σ : Type} {w : World σ} {unpoisoned : Prop} {sql : BoundSql}

theorem rolledBack_of_effects {effects : TransactionEffects} {s : σ}
    (heffects : transactionEffects w.isAlphanumeric sql.text = .ok effects)
    (hplain : PlainRollbacks w.isAlphanumeric sql.text)
    (hok : (w.server.execute s (.statement sql)).result.toBool = true)
    (hrollback : effects.rollback = true) :
    (w.server.execute s (.statement sql)).rolledBack = true := by
  obtain ⟨statement, hmem, hstatement⟩ := rollback_held heffects hrollback
  exact w.rollsBack s sql statement hok hmem (leadingSqlKeyword_of_rollback hstatement)
    (hplain.full hmem hstatement)

theorem keeps_send {command : Command}
    (hcommit : ¬unpoisoned → command.commits w.isAlphanumeric = false) :
    Keeps (Holding w unpoisoned) (send w.server command) :=
  fun _ hc => hc.send fun hopen => hcommit fun hshut =>
    absurd ((hc.shut hshut).symm.trans hopen) Bool.false_ne_true

-- A statement is sent, and its rollback is applied once it has succeeded.
theorem holding_applied {α : Type} {effects : TransactionEffects}
    (hrolled : ¬unpoisoned → effects.rollback = true → ∀ s,
      (w.server.execute s (.statement sql)).result.toBool = true →
      (w.server.execute s (.statement sql)).rolledBack = true) {next : Reply → Action σ α}
    (hnext : ∀ reply, Keeps (Holding w unpoisoned) (next reply))
    {c : Connection σ} (hc : Holding w unpoisoned c) (hcommit : poisonOpen c.events = true →
      (Command.statement sql).commits w.isAlphanumeric = false) :
    Holding w unpoisoned
      ((send w.server (.statement sql) >>= fun reply => applyTransactionRollback effects >>=
        fun _ => next reply) c).2 := by
  have hsent := hc.send hcommit
  cases hresult : (w.server.execute c.server (.statement sql)).result with
  | error error =>
    rw [bind_of_error (t := (send w.server (.statement sql) c).2) (e := error) (by rw [← hresult]; rfl)]
    exact hsent
  | ok reply =>
    rw [bind_of_ok (t := (send w.server (.statement sql) c).2) (a := reply) (by rw [← hresult]; rfl)]
    have happlied := hsent.applyRollback effects fun hrollback => by
      by_cases hshut : unpoisoned
      · exact hsent.shut hshut
      · have hback := hrolled hshut hrollback c.server (by rw [hresult]; rfl)
        rw [Driver.send, poisonOpen_snoc, Event.poisons, hback, Bool.not_true, Bool.and_false]
    rcases happly : applyTransactionRollback effects (send w.server (.statement sql) c).2 with ⟨r, d⟩
    rw [happly] at happlied
    cases r with
    | error error => rwa [bind_of_error happly]
    | ok _ =>
      rw [bind_of_ok happly]
      exact hnext reply d happlied

theorem guardTransactionCommit_cases (effects : TransactionEffects) (c : Connection σ) :
    guardTransactionCommit effects c = (.ok (), c) ∧
        (effects.commit = true → c.transactionPoison = none) ∨
      ∃ error, guardTransactionCommit effects c = (.error error, c) := by
  rw [guardTransactionCommit, commitError]
  cases effects.commit <;> cases c.transactionPoison <;> simp

theorem Guarded.shut {c : Connection σ} (h : Guarded w c)
    (hpoison : c.transactionPoison = none) : poisonOpen c.events = false := by
  rw [Bool.eq_false_iff]
  intro hopen
  have hsome := h.poisoned hopen
  rw [hpoison] at hsome
  cases hsome

theorem holding_guarded {α : Type} (effects : TransactionEffects) {m : Action σ α}
    (h : Keeps (Holding w (unpoisoned ∨ effects.commit = true)) m) :
    Keeps (Holding w unpoisoned) (guardTransactionCommit effects >>= fun _ => m) := by
  intro c hc
  rcases guardTransactionCommit_cases effects c with ⟨hpassed, hclean⟩ | ⟨error, hrefused⟩
  · rw [bind_of_ok hpassed]
    refine (h c ⟨hc.toGuarded, fun hshut => ?_, hc.off⟩).weaken .inl
    exact hshut.elim hc.shut fun hcommit => hc.toGuarded.shut (hclean hcommit)
  · rw [bind_of_error hrefused]
    exact hc

theorem holding_executeGuarded (hplain : ¬unpoisoned → PlainRollbacks w.isAlphanumeric sql.text) :
    Keeps (Holding w unpoisoned) (executeGuarded w.server w.isAlphanumeric sql) := by
  refine keeps_ofExcept_bind fun effects heffects => holding_guarded effects fun c hc => ?_
  refine holding_applied (fun hpoisoned hrollback s hok => rolledBack_of_effects heffects
    (hplain fun hshut => hpoisoned (.inl hshut)) hok hrollback) (fun reply => keeps_pure reply) hc
    fun hopen => List.any_eq_false.mpr fun statement hmem hcommits => ?_
  have hshut := hc.shut (.inr (commit_of_held heffects hmem hcommits))
  exact absurd (hshut.symm.trans hopen) Bool.false_ne_true

theorem holding_executeUpdate (hplain : ¬unpoisoned → PlainRollbacks w.isAlphanumeric sql.text) :
    Keeps (Holding w unpoisoned) (executeUpdate w.server w.isAlphanumeric sql) := by
  unfold executeUpdate
  split_ifs
  · exact keeps_fail _
  · exact keeps_bind (holding_executeGuarded hplain) fun _ => keeps_pure _

theorem holding_queryStatementResult
    (hplain : ¬unpoisoned → PlainRollbacks w.isAlphanumeric sql.text) :
    Keeps (Holding w unpoisoned) (queryStatementResult w.server w.isAlphanumeric sql) := by
  refine keeps_bind ?_ fun reply => keeps_bind (keeps_ofExcept _) fun _ => keeps_pure _
  unfold queryResult
  split_ifs
  · exact keeps_fail _
  · exact holding_executeGuarded hplain

-- What the statements of a script are, each sent alone.
structure Alone (isAlphanumeric : Bytes → Bool) (statement : Bytes) : Prop where
  held : heldStatements isAlphanumeric statement = [statement]
  keeps : (statementEffects statement).commit = false
  plain : PlainRollbacks isAlphanumeric statement

theorem holding_executeStatements {statements : List Bytes} (total : Option Int)
    (halone : ¬unpoisoned → ∀ statement ∈ statements, Alone w.isAlphanumeric statement) :
    Keeps (Holding w unpoisoned) (executeStatements w.server total statements) := by
  induction statements generalizing total with
  | nil => exact keeps_pure total
  | cons statement statements ih =>
    intro c hc
    refine holding_applied (fun hpoisoned hrollback s hok => ?_) (fun reply =>
      keeps_bind (keeps_ofExcept _) fun total => ih total fun hpoisoned other hother =>
        halone hpoisoned other (List.mem_cons_of_mem _ hother)) hc fun hopen => ?_
    · have hown := halone hpoisoned statement List.mem_cons_self
      have hmem : statement ∈ heldStatements w.isAlphanumeric statement := by
        rw [hown.held]
        exact List.mem_singleton_self _
      exact w.rollsBack s (.literal statement) statement hok hmem
        (leadingSqlKeyword_of_rollback hrollback) (hown.plain.full hmem hrollback)
    · have hpoisoned : ¬unpoisoned := fun hshut =>
        absurd ((hc.shut hshut).symm.trans hopen) Bool.false_ne_true
      have hown := halone hpoisoned statement List.mem_cons_self
      refine commits_eq_false rfl fun other hother => ?_
      rw [BoundSql.text, hown.held, List.mem_singleton] at hother
      rw [hother, hown.keeps]

theorem holding_executeUpdateScript {query : Bytes}
    (hplain : ¬unpoisoned → Utf8.valid query = true ∧ PlainRollbacks w.isAlphanumeric query) :
    Keeps (Holding w unpoisoned) (executeUpdateScript w.server w.isAlphanumeric query) := by
  refine keeps_ofExcept_bind fun statements hsplit => ?_
  split_ifs
  · exact keeps_fail _
  refine keeps_ofExcept_bind fun effects heffects => holding_guarded effects ?_
  refine holding_executeStatements none fun hpoisoned statement hmem => ?_
  obtain ⟨hvalid, hquery⟩ := hplain fun hshut => hpoisoned (.inl hshut)
  have hheld : heldStatements w.isAlphanumeric query = statements := by rw [heldStatements, hsplit]
  have hown := heldStatements_of_split hvalid hsplit hmem
  refine ⟨hown, Bool.eq_false_iff.mpr fun hcommits => hpoisoned (.inr ?_), fun command htext => ?_⟩
  · exact commit_of_held heffects (hheld ▸ hmem) hcommits
  · rw [hown, List.mem_singleton] at htext
    exact hquery command (by rwa [htext, hheld])

theorem holding_setAutocommit (enabled : Bool) :
    Keeps (Holding w unpoisoned) (setAutocommit w.server enabled) := by
  refine holding_guarded ⟨enabled, false⟩ (keeps_bind (keeps_serverAutocommit w.server) fun _ => ?_)
  refine keeps_bind (keeps_onlyIf fun hboth => keeps_unit (keeps_send fun h =>
    absurd (.inr hboth.1) h)) fun _ => ?_
  refine keeps_bind (keeps_onlyIf fun _ => keeps_unit (keeps_send fun h =>
    Bool.eq_false_iff.mpr fun henabled => h (.inr henabled))) fun _ => ?_
  exact keeps_onlyIf fun _ d hd => hd.modified false

end Statements

end MonetdbAdbc.Driver
