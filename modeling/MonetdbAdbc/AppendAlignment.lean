import MonetdbAdbc.AppendRoutes

namespace MonetdbAdbc
open Machine

def foldedColumns (name : String) (columns : List AppendColumn) : List AppendColumn :=
  columns.filter fun column => eqIgnoreAsciiCase name column.name

def Destination (columns : List AppendColumn) (name : String) (column : AppendColumn) : Prop :=
  column ∈ columns ∧
    (column.name = name ∨
      (∀ other ∈ columns, other.name ≠ name) ∧ eqIgnoreAsciiCase name column.name ∧
        ∀ other ∈ columns, eqIgnoreAsciiCase name other.name → other = column)

inductive Unmatched (columns : List AppendColumn) (name : String) : AppendReason → Prop
  | missing : foldedColumns name columns = [] →
    Unmatched columns name (.missing name (columns.map AppendColumn.name))
  | ambiguous : 2 ≤ (foldedColumns name columns).length →
    Unmatched columns name (.ambiguous name ((foldedColumns name columns).map AppendColumn.name))

section Matching
variable {columns : List AppendColumn} {name : String} {column : AppendColumn}

theorem mem_foldedColumns :
    column ∈ foldedColumns name columns ↔
      column ∈ columns ∧ eqIgnoreAsciiCase name column.name = true :=
  List.mem_filter

theorem foldedColumns_eq (name : String) (columns : List AppendColumn) :
    (columns.zipIdx.filter fun entry => eqIgnoreAsciiCase name entry.1.name).map Prod.fst =
      foldedColumns name columns := by
  have hmap := List.filter_map (f := Prod.fst) (l := columns.zipIdx)
    (p := fun column : AppendColumn => eqIgnoreAsciiCase name column.name)
  rw [List.zipIdx_map_fst] at hmap
  exact hmap.symm

theorem appendColumnIndex_cases (name : String) (columns : List AppendColumn) :
    (∃ index column, columns[index]? = some column ∧ column.name = name ∧
      appendColumnIndex name columns = .exact index) ∨
    ((∀ column ∈ columns, column.name ≠ name) ∧
      ((foldedColumns name columns = [] ∧ appendColumnIndex name columns = .none) ∨
      (∃ index column, columns[index]? = some column ∧ foldedColumns name columns = [column] ∧
        appendColumnIndex name columns = .caseInsensitive index) ∨
      (2 ≤ (foldedColumns name columns).length ∧ appendColumnIndex name columns =
        .ambiguous ((foldedColumns name columns).map AppendColumn.name)))) := by
  rw [appendColumnIndex]
  cases hexact : columns.findIdx? (fun column => name == column.name) with
  | some index =>
    obtain ⟨hindex, hname, -⟩ := List.findIdx?_eq_some_iff_getElem.mp hexact
    exact .inl ⟨index, columns[index], List.getElem?_eq_getElem hindex,
      (beq_iff_eq.mp hname).symm, rfl⟩
  | none =>
    refine .inr ⟨?_, ?_⟩
    · intro column hcolumn hname
      have hno := List.findIdx?_eq_none_iff.mp hexact column hcolumn
      simp [hname] at hno
    · have hfolded := foldedColumns_eq name columns
      cases hentries : columns.zipIdx.filter
          fun entry => eqIgnoreAsciiCase name entry.1.name with
      | nil =>
        rw [hentries] at hfolded
        exact .inl ⟨hfolded.symm, rfl⟩
      | cons entry entries =>
        rw [hentries] at hfolded
        obtain ⟨column, index⟩ := entry
        cases entries with
        | nil =>
          have hmem : (column, index) ∈ columns.zipIdx := by
            apply List.mem_of_mem_filter
            rw [hentries]
            exact List.mem_cons_self
          exact .inr (.inl ⟨index, column, List.mem_zipIdx_iff_getElem?.mp hmem, hfolded.symm, rfl⟩)
        | cons second entries =>
          rw [← hfolded]
          exact .inr (.inr ⟨by simp, by simp⟩)

theorem destination_of_singleton (hexact : ∀ column ∈ columns, column.name ≠ name)
    (h : foldedColumns name columns = [column]) : Destination columns name column := by
  have hmem : ∀ other, other ∈ foldedColumns name columns ↔ other = column := by
    intro other
    rw [h, List.mem_singleton]
  obtain ⟨hcolumn, hcase⟩ := mem_foldedColumns.mp ((hmem column).mpr rfl)
  exact ⟨hcolumn, .inr ⟨hexact, hcase, fun other hother hfolds =>
    (hmem other).mp (mem_foldedColumns.mpr ⟨hother, hfolds⟩)⟩⟩

theorem not_destination (hnodup : columns.Nodup)
    (hexact : ∀ column ∈ columns, column.name ≠ name)
    (hlength : (foldedColumns name columns).length ≠ 1) (column : AppendColumn) :
    ¬Destination columns name column := by
  rintro ⟨hcolumn, hname | ⟨-, hcase, honly⟩⟩
  · exact hexact column hcolumn hname
  · have hfolded := mem_foldedColumns.mpr ⟨hcolumn, hcase⟩
    have hpos := List.length_pos_of_mem hfolded
    have hsubset : foldedColumns name columns ⊆ [column] := by
      intro other hother
      obtain ⟨hmem, hfolds⟩ := mem_foldedColumns.mp hother
      exact List.mem_singleton.mpr (honly other hmem hfolds)
    have hle := (List.subperm_of_subset (hnodup.filter _) hsubset).length_le
    simp only [List.length_singleton] at hle
    exact hlength (Nat.le_antisymm hle hpos)

theorem matchedColumn_cases (mismatchStatus : Status)
    (hdistinct : (columns.map AppendColumn.name).Nodup) (field : Field) :
    (∃ index column, Destination columns field.name column ∧ columns[index]? = some column ∧
      matchedColumn columns mismatchStatus field = .ok index) ∨
    ((∀ column, ¬Destination columns field.name column) ∧
      ∃ reason, Unmatched columns field.name reason ∧
        matchedColumn columns mismatchStatus field = .error ⟨reason, mismatchStatus⟩) := by
  have hnodup : columns.Nodup := hdistinct.of_map
  rw [matchedColumn]
  rcases appendColumnIndex_cases field.name columns with
    ⟨index, column, hget, hname, hmatch⟩ | ⟨hexact, ⟨hfolded, hmatch⟩ |
      ⟨index, column, hget, hfolded, hmatch⟩ | ⟨hlength, hmatch⟩⟩
  · rw [hmatch]
    exact .inl ⟨index, column, ⟨List.mem_of_getElem? hget, .inl hname⟩, hget, rfl⟩
  · rw [hmatch]
    refine .inr ⟨not_destination hnodup hexact (by simp [hfolded]), _, .missing hfolded, rfl⟩
  · rw [hmatch]
    exact .inl ⟨index, column, destination_of_singleton hexact hfolded, hget, rfl⟩
  · rw [hmatch]
    exact .inr ⟨not_destination hnodup hexact (by omega), _, .ambiguous hlength, rfl⟩

theorem Destination.unique (hdistinct : (columns.map AppendColumn.name).Nodup)
    {a b : AppendColumn} (ha : Destination columns name a) (hb : Destination columns name b) :
    a = b := by
  obtain ⟨hamem, ha⟩ := ha
  obtain ⟨hbmem, hb⟩ := hb
  rcases ha with ha | ⟨hexact, hcase, honly⟩
  · rcases hb with hb | ⟨hexact, -, -⟩
    · exact List.inj_on_of_nodup_map hdistinct hamem hbmem (ha.trans hb.symm)
    · exact absurd ha (hexact a hamem)
  · rcases hb with hb | ⟨-, hcase', -⟩
    · exact absurd hb (hexact b hbmem)
    · exact (honly b hbmem hcase').symm

theorem picks_iff_destination (hdistinct : (columns.map AppendColumn.name).Nodup) {field : Field} :
    Picks columns field column ↔ Destination columns field.name column := by
  simp only [Picks, ← @matchedColumn_ok_iff columns .internal]
  rcases matchedColumn_cases .internal hdistinct field with
    ⟨index, found, hfound, hget, hmatched⟩ | ⟨hno, reason, -, hmatched⟩
  · rw [hmatched]
    constructor
    · rintro ⟨i, hi, hindex⟩
      cases hindex
      rw [hget] at hi
      exact Option.some.inj hi ▸ hfound
    · intro hcolumn
      obtain rfl := hcolumn.unique hdistinct hfound
      exact ⟨index, hget, rfl⟩
  · rw [hmatched]
    exact iff_of_false (by simp) (hno column)

end Matching

inductive Relisted : AppendReason → AppendReason → Prop
  | same (reason : AppendReason) : Relisted reason reason
  | ambiguous (field : String) {a b : List String} (h : a.Perm b) :
    Relisted (.ambiguous field a) (.ambiguous field b)
  | missing (field : String) {a b : List String} (h : a.Perm b) :
    Relisted (.missing field a) (.missing field b)

inductive SameOutcome : Except AppendError (List String) → Except AppendError (List String) → Prop
  | ok (targets : List String) : SameOutcome (.ok targets) (.ok targets)
  | error (status : Status) {a b : AppendReason} (h : Relisted a b) :
    SameOutcome (.error ⟨a, status⟩) (.error ⟨b, status⟩)

section ColumnOrder
variable {columns permuted : List AppendColumn} {mismatchStatus : Status} {matched : List Bool}

theorem SameOutcome.refl (outcome : Except AppendError (List String)) :
    SameOutcome outcome outcome := by
  cases outcome with
  | error error => exact .error error.status (.same error.reason)
  | ok targets => exact .ok targets

theorem SameOutcome.cons {x y : Except AppendError (List String)} (h : SameOutcome x y)
    (name : String) :
    SameOutcome (x >>= fun targets => .ok (name :: targets))
      (y >>= fun targets => .ok (name :: targets)) := by
  cases h with
  | ok targets => exact .ok (name :: targets)
  | error status h => exact .error status h

theorem destination_perm (hperm : columns.Perm permuted) (name : String) (column : AppendColumn) :
    Destination columns name column ↔ Destination permuted name column := by
  simp only [Destination, hperm.mem_iff]

theorem Unmatched.relisted (hperm : columns.Perm permuted) {name : String} {a b : AppendReason}
    (ha : Unmatched columns name a) (hb : Unmatched permuted name b) : Relisted a b := by
  have hfolded : (foldedColumns name columns).Perm (foldedColumns name permuted) :=
    hperm.filter _
  have hlength := hfolded.length_eq
  cases ha with
  | missing hnone =>
    cases hb with
    | missing _ => exact .missing name (hperm.map _)
    | ambiguous hmany =>
      rw [hnone, List.length_nil] at hlength
      omega
  | ambiguous hmany =>
    cases hb with
    | missing hnone =>
      rw [hnone, List.length_nil] at hlength
      omega
    | ambiguous _ => exact .ambiguous name (hfolded.map _)

theorem free_iff_getD (hdistinct : (columns.map AppendColumn.name).Nodup) {index : Nat}
    {column : AppendColumn} (hget : columns[index]? = some column) :
    Free columns matched column ↔ matched.getD index false = false := by
  constructor
  · intro hfree
    exact hfree index hget
  · intro hindex j hj
    rwa [index_unique hdistinct hj hget rfl]

theorem alignFrom_cons_matched {field : Field} {index : Nat} {column : AppendColumn}
    (hmatched : matchedColumn columns mismatchStatus field = .ok index)
    (hget : columns[index]? = some column) (fields : List Field) :
    alignFrom columns mismatchStatus matched (field :: fields) =
      if matched.getD index false then .error ⟨.duplicate column.name, mismatchStatus⟩
      else appendSource field >>= fun source =>
        if !appendMonetTypesMatch source column.dataType then
          .error ⟨.typeMismatch field.name source column.dataType, mismatchStatus⟩
        else alignFrom columns mismatchStatus (matched.set index true) fields >>= fun targets =>
          .ok (column.name :: targets) := by
  rw [alignFrom, hmatched, ok_bind, hget]

-- The marks are compared column by column: the same columns are taken, wherever they stand.
theorem alignFrom_perm (hperm : columns.Perm permuted)
    (hdistinct : (columns.map AppendColumn.name).Nodup) {matched' : List Bool}
    (hlength : matched.length = columns.length) (hlength' : matched'.length = permuted.length)
    (hfree : ∀ column ∈ columns, Free columns matched column ↔ Free permuted matched' column)
    (fields : List Field) :
    SameOutcome (alignFrom columns mismatchStatus matched fields)
      (alignFrom permuted mismatchStatus matched' fields) := by
  have hdistinct' : (permuted.map AppendColumn.name).Nodup :=
    (hperm.map AppendColumn.name).nodup_iff.mp hdistinct
  induction fields generalizing matched matched' with
  | nil => exact .ok []
  | cons field fields ih =>
    rcases matchedColumn_cases mismatchStatus hdistinct field with
      ⟨index, column, hcolumn, hget, hmatched⟩ | ⟨hno, reason, hreason, hmatched⟩
    · rcases matchedColumn_cases mismatchStatus hdistinct' field with
        ⟨index', column', hcolumn', hget', hmatched'⟩ | ⟨hno, -⟩
      · obtain rfl :=
          hcolumn.unique hdistinct ((destination_perm hperm field.name column').mpr hcolumn')
        have hmem := List.mem_of_getElem? hget
        rw [alignFrom_cons_matched hmatched hget, alignFrom_cons_matched hmatched' hget']
        have htaken : matched.getD index false = matched'.getD index' false := by
          have hiff := hfree column hmem
          rw [free_iff_getD hdistinct hget, free_iff_getD hdistinct' hget'] at hiff
          exact Bool.eq_iff_iff.mpr (by simpa using not_congr hiff)
        rw [htaken]
        split_ifs with hindex
        · exact .refl _
        · cases appendSource field with
          | error error => exact .refl _
          | ok source =>
            rw [ok_bind, ok_bind]
            split_ifs with htypes
            · exact .refl _
            · refine (ih (by simpa using hlength) (by simpa using hlength') ?_).cons column.name
              intro other hother
              rw [free_set_iff hdistinct hlength hget hother,
                free_set_iff hdistinct' hlength' hget' (hperm.mem_iff.mp hother),
                hfree other hother]
      · exact absurd ((destination_perm hperm field.name column).mp hcolumn) (hno column)
    · rcases matchedColumn_cases mismatchStatus hdistinct' field with
        ⟨index', column', hcolumn', -⟩ | ⟨-, reason', hreason', hmatched'⟩
      · exact absurd ((destination_perm hperm field.name column').mpr hcolumn') (hno column')
      · rw [alignFrom, alignFrom, hmatched, hmatched']
        exact .error mismatchStatus (hreason.relisted hperm hreason')

theorem free_replicate (column : AppendColumn) :
    Free columns (List.replicate columns.length false) column := by
  intro index hget
  obtain ⟨hindex, -⟩ := List.getElem?_eq_some_iff.mp hget
  simp [List.getD_eq_getElem?_getD, hindex]

theorem alignAppendSchema_perm (hperm : columns.Perm permuted)
    (hdistinct : (columns.map AppendColumn.name).Nodup) (schema : List Field) :
    SameOutcome (alignAppendSchema columns mismatchStatus schema)
      (alignAppendSchema permuted mismatchStatus schema) :=
  alignFrom_perm hperm hdistinct (List.length_replicate ..) (List.length_replicate ..)
    (fun column _ => iff_of_true (free_replicate column) (free_replicate column)) schema

end ColumnOrder

section StreamOrder
variable {columns : List AppendColumn} {mismatchStatus : Status} {n : Nat} {fields : Fin n → Field}

structure Assignment (columns : List AppendColumn) (fields : Fin n → Field)
    (destinations : Fin n → AppendColumn) : Prop where
  destination : ∀ i, Destination columns (fields i).name (destinations i)
  typed : ∀ i, Typed (fields i) (destinations i)
  injective : Function.Injective destinations

theorem Assignment.permute {destinations : Fin n → AppendColumn}
    (h : Assignment columns fields destinations) (σ : Equiv.Perm (Fin n)) :
    Assignment columns (fields ∘ σ) (destinations ∘ σ) where
  destination i := h.destination (σ i)
  typed i := h.typed (σ i)
  injective := h.injective.comp σ.injective

theorem forall₂_ofFn {α β : Type} {R : α → β → Prop} {f : Fin n → α} {ys : List β} :
    List.Forall₂ R (List.ofFn f) ys ↔ ∃ g : Fin n → β, ys = List.ofFn g ∧ ∀ i, R (f i) (g i) := by
  rw [List.forall₂_iff_get]
  constructor
  · rintro ⟨hlength, h⟩
    rw [List.length_ofFn] at hlength
    subst hlength
    refine ⟨ys.get, (List.ofFn_get ys).symm, fun i => ?_⟩
    simpa using h i (by simp) i.isLt
  · rintro ⟨g, rfl, h⟩
    refine ⟨by simp, fun i hi hi' => ?_⟩
    simpa using h ⟨i, by simpa using hi⟩

theorem align_ofFn_ok_iff (hdistinct : (columns.map AppendColumn.name).Nodup)
    {targets : List String} :
    alignAppendSchema columns mismatchStatus (List.ofFn fields) = .ok targets ↔
      ∃ destinations, Assignment columns fields destinations ∧
        targets = List.ofFn fun i => (destinations i).name := by
  rw [alignAppendSchema_ok_iff hdistinct]
  constructor
  · rintro ⟨picked, ⟨hpicks, hnodup⟩, htyped, rfl⟩
    obtain ⟨destinations, rfl, hdestinations⟩ := forall₂_ofFn.mp hpicks
    obtain ⟨typed, heq, htyped⟩ := forall₂_ofFn.mp htyped
    obtain rfl := List.ofFn_injective heq
    refine ⟨destinations, ⟨?_, htyped, ?_⟩, List.map_ofFn ..⟩
    · intro i
      exact (picks_iff_destination hdistinct).mp (hdestinations i)
    · exact List.nodup_ofFn.mp hnodup.of_map
  · rintro ⟨destinations, h, rfl⟩
    refine ⟨List.ofFn destinations, ⟨?_, ?_⟩, ?_, (List.map_ofFn ..).symm⟩
    · exact forall₂_ofFn.mpr
        ⟨destinations, rfl, fun i => (picks_iff_destination hdistinct).mpr (h.destination i)⟩
    · refine (List.nodup_ofFn.mpr h.injective).map_on ?_
      intro a ha b hb hname
      obtain ⟨i, rfl⟩ := List.mem_ofFn.mp ha
      obtain ⟨j, rfl⟩ := List.mem_ofFn.mp hb
      exact List.inj_on_of_nodup_map hdistinct (h.destination i).1 (h.destination j).1 hname
    · exact forall₂_ofFn.mpr ⟨destinations, rfl, h.typed⟩

theorem align_ofFn_permute (hdistinct : (columns.map AppendColumn.name).Nodup)
    {names : Fin n → String} (σ : Equiv.Perm (Fin n))
    (h : alignAppendSchema columns mismatchStatus (List.ofFn fields) = .ok (List.ofFn names)) :
    alignAppendSchema columns mismatchStatus (List.ofFn (fields ∘ σ)) =
      .ok (List.ofFn (names ∘ σ)) := by
  obtain ⟨destinations, hassigned, hnames⟩ := (align_ofFn_ok_iff hdistinct).mp h
  obtain rfl := List.ofFn_injective hnames
  exact (align_ofFn_ok_iff hdistinct).mpr ⟨destinations ∘ σ, hassigned.permute σ, rfl⟩

end StreamOrder

theorem append_alignment_by_name (columns : List AppendColumn) (mismatchStatus : Status)
    (hdistinct : (columns.map AppendColumn.name).Nodup) :
    (∀ (schema : List Field) (targets : List String),
      alignAppendSchema columns mismatchStatus schema = .ok targets ↔
        ∃ destinations : Fin schema.length → AppendColumn,
          Assignment columns schema.get destinations ∧
            targets = List.ofFn fun i => (destinations i).name) ∧
    (∀ (permuted : List AppendColumn) (schema : List Field), columns.Perm permuted →
      SameOutcome (alignAppendSchema columns mismatchStatus schema)
        (alignAppendSchema permuted mismatchStatus schema)) ∧
    (∀ (n : Nat) (fields : Fin n → Field) (names : Fin n → String) (σ : Equiv.Perm (Fin n)),
      alignAppendSchema columns mismatchStatus (List.ofFn fields) = .ok (List.ofFn names) ↔
        alignAppendSchema columns mismatchStatus (List.ofFn (fields ∘ σ)) =
          .ok (List.ofFn (names ∘ σ))) := by
  refine ⟨?_, ?_, ?_⟩
  · intro schema targets
    have h := @align_ofFn_ok_iff columns mismatchStatus _ schema.get hdistinct targets
    rwa [List.ofFn_get] at h
  · intro permuted schema hperm
    exact alignAppendSchema_perm hperm hdistinct schema
  · intro n fields names σ
    refine ⟨align_ofFn_permute hdistinct σ, fun h => ?_⟩
    have hback := align_ofFn_permute hdistinct σ.symm h
    simpa [Function.comp_assoc] using hback

theorem id_stream_aligned_by_name :
    (idColumns.map AppendColumn.name).Nodup ∧ idColumns.Perm idColumns.reverse ∧
      SameOutcome (alignAppendSchema idColumns .invalidArguments idStream)
        (alignAppendSchema idColumns.reverse .invalidArguments idStream) :=
  ⟨by decide, (List.reverse_perm _).symm,
    (append_alignment_by_name idColumns .invalidArguments (by decide)).2.1 _ idStream
      (List.reverse_perm _).symm⟩

def caseVariants : List AppendColumn := [⟨"ID", .int, false⟩, ⟨"Id", .int, false⟩]

theorem ambiguous_error_lists_columns_in_order :
    (caseVariants.map AppendColumn.name).Nodup ∧ caseVariants.Perm caseVariants.reverse ∧
      alignAppendSchema caseVariants .invalidArguments [⟨"id", .primitive .int32, false, none⟩] =
        .error ⟨.ambiguous "id" ["ID", "Id"], .invalidArguments⟩ ∧
      alignAppendSchema caseVariants.reverse .invalidArguments
          [⟨"id", .primitive .int32, false, none⟩] =
        .error ⟨.ambiguous "id" ["Id", "ID"], .invalidArguments⟩ :=
  ⟨by decide, (List.reverse_perm _).symm, by decide, by decide⟩

end MonetdbAdbc
