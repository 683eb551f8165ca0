import MonetdbAdbc.Sql.ScanSound
import MonetdbAdbc.Sql.Template

namespace MonetdbAdbc.Sql
open LittleEndian Text Lexing
open scoped Computability

def ScannedSlot.range (slot : ScannedSlot) : Nat × Nat := (slot.start, slot.stop)

def ownText (layout : ParameterLayout) (slot : TemplateSlot) : Bytes :=
  match slot.parameter, layout with
  | .positional _, _ => [63]
  | .named index, .named names => 58 :: (names[index]?).getD []
  | .named _, .positional _ => []

section Rendering
variable {query : Bytes} {resolve : TemplateSlot → Except AdbcError Bytes}

theorem renderFrom_own {from_ : Nat} {slots : List TemplateSlot} {scanned : List ScannedSlot}
    (hown : List.Forall₂ (fun slot scanned => resolve slot = .ok (slice query scanned.range))
      slots scanned)
    (hordered : scanned.Pairwise fun slot later => slot.stop ≤ later.start)
    (hslots : ∀ slot ∈ scanned, from_ ≤ slot.start ∧ slot.start < slot.stop ∧
      slot.stop ≤ query.length) (hfrom : from_ ≤ query.length) :
    QueryTemplate.renderFrom query resolve (gaps from_ (scanned.map ScannedSlot.range) ++
      [(lastStop from_ (scanned.map ScannedSlot.range), query.length)]) slots =
        .ok (slice query (from_, query.length)) := by
  induction hown generalizing from_ with
  | nil => rfl
  | @cons slot first slots scanned hslot _ ih =>
    rw [List.pairwise_cons] at hordered
    rw [List.forall_mem_cons] at hslots
    obtain ⟨⟨hstart, hne, hstop⟩, hrest⟩ := hslots
    have hlater : ∀ slot ∈ scanned, first.stop ≤ slot.start ∧ slot.start < slot.stop ∧
        slot.stop ≤ query.length := fun slot hmem => ⟨hordered.1 slot hmem, (hrest slot hmem).2⟩
    have htail := ih hordered.2 hlater hstop
    rw [List.map_cons, gaps, List.cons_append, QueryTemplate.renderFrom, hslot]
    simp only [lastStop, bind, Except.bind]
    have hjoin : slice query (from_, first.start) ++ slice query first.range ++
        slice query (first.stop, query.length) = slice query (from_, query.length) := by
      rw [ScannedSlot.range, List.append_assoc, slice_append hne.le hstop le_rfl,
        slice_append hstart (hne.le.trans hstop) le_rfl]
    rw [show first.range.2 = first.stop from rfl, htail]
    exact congrArg Except.ok hjoin

end Rendering

section Compiling
variable {query : Bytes} {scanned : ScannedSlot} {done : List ScannedSlot}
  {compilation : Compilation}

def BindsName (query : Bytes) (names : List Bytes) (slot : TemplateSlot) (scanned : ScannedSlot) :
    Prop :=
  ∃ range index, scanned.name = some range ∧ slot.parameter = .named index ∧
    names[index]? = some (slice query range)

structure PositionalOnly (done : List ScannedSlot) (compilation : Compilation) : Prop where
  unnamed : compilation.named = []
  count : compilation.positionalCount = done.length
  names : ∀ slot ∈ done, slot.name = none
  slots : compilation.slots.map TemplateSlot.parameter =
    (List.range done.length).map ParameterSlot.positional

structure NamedOnly (query : Bytes) (done : List ScannedSlot) (compilation : Compilation) : Prop where
  some_name : compilation.named ≠ []
  count : compilation.positionalCount = 0
  nodup : compilation.named.Nodup
  slots : List.Forall₂ (BindsName query compilation.named) compilation.slots done

structure Compiled (query : Bytes) (done : List ScannedSlot) (compilation : Compilation) : Prop where
  segmentStart : compilation.segmentStart = lastStop 0 (done.map ScannedSlot.range)
  segments : compilation.segments = gaps 0 (done.map ScannedSlot.range)
  kind : PositionalOnly done compilation ∨ NamedOnly query done compilation

theorem BindsName.append {names more : List Bytes} {slot : TemplateSlot}
    (h : BindsName query names slot scanned) : BindsName query (names ++ more) slot scanned := by
  obtain ⟨range, index, hname, hparameter, hindex⟩ := h
  refine ⟨range, index, hname, hparameter, ?_⟩
  rw [List.getElem?_append_left (List.getElem?_eq_some_iff.mp hindex).1, hindex]

theorem compiled_new : Compiled query [] .new :=
  ⟨rfl, rfl, .inl ⟨rfl, rfl, by simp, rfl⟩⟩

theorem Compiled.push {next : Compilation} (h : Compiled query done compilation)
    (hstart : next.segmentStart = scanned.stop)
    (hsegments : next.segments = compilation.segments ++ [(compilation.segmentStart, scanned.start)])
    (hkind : PositionalOnly (done ++ [scanned]) next ∨ NamedOnly query (done ++ [scanned]) next) :
    Compiled query (done ++ [scanned]) next := by
  refine ⟨?_, ?_, hkind⟩
  · rw [hstart, List.map_append, List.map_singleton, lastStop_snoc]
    rfl
  · rw [hsegments, h.segments, h.segmentStart, List.map_append, List.map_singleton, gaps_snoc]
    rfl

theorem PositionalOnly.push (h : PositionalOnly done compilation) (hname : scanned.name = none) :
    PositionalOnly (done ++ [scanned])
      { compilation.push scanned (.positional compilation.positionalCount) with
        positionalCount := compilation.positionalCount + 1 } := by
  refine ⟨h.unnamed, ?_, ?_, ?_⟩
  · simp [h.count]
  · rw [List.forall_mem_append, List.forall_mem_singleton]
    exact ⟨h.names, hname⟩
  · simp [Compilation.push, h.slots, h.count, List.range_succ]

theorem forall₂_snoc {α β : Type} {R : α → β → Prop} {xs : List α} {ys : List β} {x : α} {y : β}
    (h : List.Forall₂ R xs ys) (hlast : R x y) : List.Forall₂ R (xs ++ [x]) (ys ++ [y]) :=
  List.rel_append h (.cons hlast .nil)

theorem NamedOnly.reuse {range : Nat × Nat} {index : Nat} (h : NamedOnly query done compilation)
    (hname : scanned.name = some range)
    (hindex : compilation.named[index]? = some (slice query range)) :
    NamedOnly query (done ++ [scanned]) (compilation.push scanned (.named index)) :=
  ⟨h.some_name, h.count, h.nodup, forall₂_snoc h.slots ⟨range, index, hname, rfl, hindex⟩⟩

theorem NamedOnly.fresh {range : Nat × Nat} (hcount : compilation.positionalCount = 0)
    (hnodup : compilation.named.Nodup)
    (hslots : List.Forall₂ (BindsName query compilation.named) compilation.slots done)
    (hname : scanned.name = some range) (hnew : slice query range ∉ compilation.named) :
    NamedOnly query (done ++ [scanned])
      { compilation.push scanned (.named compilation.named.length) with
        named := compilation.named ++ [slice query range] } := by
  refine ⟨by simp, hcount, ?_, ?_⟩
  · rw [List.nodup_append]
    refine ⟨hnodup, List.nodup_singleton _, fun name hmem last hlast heq => ?_⟩
    rw [List.mem_singleton.mp hlast] at heq
    exact hnew (heq ▸ hmem)
  · exact forall₂_snoc (hslots.imp fun _ _ => BindsName.append)
      ⟨range, _, hname, rfl, by simp⟩

theorem getElem?_of_idxOf? {names : List Bytes} {name : Bytes} {index : Nat}
    (h : names.idxOf? name = some index) : names[index]? = some name := by
  rw [List.idxOf?, List.findIdx?_eq_some_iff_getElem] at h
  obtain ⟨hlt, hname, -⟩ := h
  rw [List.getElem?_eq_getElem hlt, beq_iff_eq.mp hname]

theorem Compiled.addSlot {next : Compilation} (h : Compiled query done compilation)
    (hadd : compilation.addSlot query scanned = .ok next) :
    Compiled query (done ++ [scanned]) next := by
  rw [Compilation.addSlot] at hadd
  cases hname : scanned.name with
  | none =>
    simp only [hname] at hadd
    split_ifs at hadd with hnamed
    cases hadd
    have hnil : compilation.named = [] := by simpa using hnamed
    rcases h.kind with hpositional | hnames
    · exact h.push rfl rfl (.inl (hpositional.push hname))
    · exact absurd hnil hnames.some_name
  | some range =>
    simp only [hname] at hadd
    split_ifs at hadd with hcount
    have hzero : compilation.positionalCount = 0 := by omega
    cases hfound : compilation.named.idxOf? (slice query range) with
    | some index =>
      simp only [hfound] at hadd
      cases hadd
      rcases h.kind with hpositional | hnames
      · rw [hpositional.unnamed] at hfound
        cases hfound
      · exact h.push rfl rfl (.inr (hnames.reuse hname (getElem?_of_idxOf? hfound)))
    | none =>
      simp only [hfound] at hadd
      cases hadd
      have hnew : slice query range ∉ compilation.named := by simpa using hfound
      refine h.push rfl rfl (.inr ?_)
      rcases h.kind with hpositional | hnames
      · obtain rfl : done = [] := List.length_eq_zero_iff.mp (hpositional.count.symm.trans hzero)
        have hslots : compilation.slots = [] := by simpa using hpositional.slots
        exact .fresh hzero (by rw [hpositional.unnamed]; exact .nil) (by rw [hslots]; exact .nil)
          hname hnew
      · exact .fresh hzero hnames.nodup hnames.slots hname hnew

theorem compiled_fold {rest : List ScannedSlot} {final : Compilation}
    (h : Compiled query done compilation)
    (hfold : rest.foldlM (Compilation.addSlot query) compilation = .ok final) :
    Compiled query (done ++ rest) final := by
  induction rest generalizing done compilation with
  | nil =>
    cases hfold
    rwa [List.append_nil]
  | cons scanned rest ih =>
    rw [List.foldlM_cons] at hfold
    cases hadd : compilation.addSlot query scanned with
    | error error =>
      rw [hadd] at hfold
      cases hfold
    | ok next =>
      rw [hadd] at hfold
      rw [List.append_cons]
      exact ih (h.addSlot hadd) hfold

end Compiling

structure SoundTemplate (query : Bytes) (scan : QueryScan) (template : QueryTemplate) : Prop where
  own : List.Forall₂ (fun slot scanned => ownText template.layout slot = slice query scanned.range)
    template.slots scan.slots
  reproduces : ∀ resolve, List.Forall₂ (fun slot scanned =>
    resolve slot = .ok (slice query scanned.range)) template.slots scan.slots →
      template.render resolve = .ok query
  positional : ∀ (k : Nat) (slot : ScannedSlot), scan.slots[k]? = some slot → slot.name = none →
    template.slots[k]?.map TemplateSlot.parameter = some (.positional k)
  named : ∀ (j k : Nat) (first second : ScannedSlot) (range other : Nat × Nat), scan.slots[j]? = some first →
    scan.slots[k]? = some second → first.name = some range → second.name = some other →
      ∃ m n, template.slots[j]?.map TemplateSlot.parameter = some (.named m) ∧
        template.slots[k]?.map TemplateSlot.parameter = some (.named n) ∧
        (slice query range = slice query other ↔ m = n)

theorem compileQuery_ok {isAlphanumeric : Bytes → Bool} {query : Bytes} {scan : QueryScan}
    {template : QueryTemplate} (hscan : scanQuery isAlphanumeric query = .ok scan)
    (h : compileQuery isAlphanumeric query = .ok template) :
    ∃ compiled, Compiled query scan.slots compiled ∧ template =
      ⟨query, compiled.segments ++ [(compiled.segmentStart, query.length)], compiled.slots,
        if compiled.named.isEmpty then .positional compiled.positionalCount
        else .named compiled.named⟩ := by
  rw [compileQuery, hscan] at h
  simp only [bind, Except.bind] at h
  split_ifs at h
  cases hfold : scan.slots.foldlM (Compilation.addSlot query) .new with
  | error error =>
    rw [hfold] at h
    cases h
  | ok compiled =>
    rw [hfold] at h
    exact ⟨compiled, compiled_fold compiled_new hfold, (Except.ok.inj h).symm⟩

section Layout
variable {query : Bytes} {scanned : List ScannedSlot} {compiled : Compilation}

theorem PositionalOnly.parameter (h : PositionalOnly scanned compiled) {k : Nat}
    (hk : k < scanned.length) :
    compiled.slots[k]?.map TemplateSlot.parameter = some (.positional k) := by
  rw [← List.getElem?_map, h.slots, List.getElem?_map, List.getElem?_range hk]
  rfl

theorem PositionalOnly.own (h : PositionalOnly scanned compiled)
    (htext : ∀ slot ∈ scanned, SlotText query slot) :
    List.Forall₂ (fun slot scanned => ownText (.positional compiled.positionalCount) slot =
      slice query scanned.range) compiled.slots scanned := by
  rw [List.forall₂_iff_get]
  refine ⟨by simpa using congrArg List.length h.slots, fun k hk hscanned => ?_⟩
  have hslot := htext _ (List.get_mem scanned ⟨k, hscanned⟩)
  rw [SlotText, h.names _ (List.get_mem scanned ⟨k, hscanned⟩)] at hslot
  have hparameter := h.parameter hscanned
  rw [List.getElem?_eq_getElem hk, Option.map_some, Option.some.injEq] at hparameter
  simp only [ownText, List.get_eq_getElem, hparameter]
  exact hslot.symm

theorem NamedOnly.own (h : NamedOnly query scanned compiled)
    (htext : ∀ slot ∈ scanned, SlotText query slot) :
    List.Forall₂ (fun slot scanned => ownText (.named compiled.named) slot =
      slice query scanned.range) compiled.slots scanned := by
  have hboth := (List.forall₂_and_left _ _).mpr ⟨htext, h.slots.flip⟩
  refine hboth.flip.imp ?_
  rintro slot scanned ⟨hslot, range, index, hname, hparameter, hindex⟩
  rw [SlotText, hname] at hslot
  simp only [ownText, hparameter, hindex, Option.getD_some]
  exact hslot.2.symm

theorem NamedOnly.parameter (h : NamedOnly query scanned compiled) {k : Nat} {slot : ScannedSlot}
    (hk : scanned[k]? = some slot) {range : Nat × Nat} (hname : slot.name = some range) :
    ∃ m, compiled.slots[k]?.map TemplateSlot.parameter = some (.named m) ∧
      compiled.named[m]? = some (slice query range) := by
  obtain ⟨hlt, rfl⟩ := List.getElem?_eq_some_iff.mp hk
  have hslots : k < compiled.slots.length := h.slots.length_eq ▸ hlt
  obtain ⟨found, m, hfound, hparameter, hindex⟩ := h.slots.get hslots hlt
  rw [List.get_eq_getElem, hname] at hfound
  cases hfound
  refine ⟨m, ?_, hindex⟩
  rw [List.getElem?_eq_getElem hslots, Option.map_some]
  exact congrArg some hparameter

end Layout

theorem compileQuery_sound {isAlphanumeric : Bytes → Bool} {query : Bytes} {scan : QueryScan}
    {template : QueryTemplate} (hscan : scanQuery isAlphanumeric query = .ok scan)
    (hsound : SoundScan query scan) (h : compileQuery isAlphanumeric query = .ok template) :
    SoundTemplate query scan template := by
  obtain ⟨compiled, hcompiled, rfl⟩ := compileQuery_ok hscan h
  refine ⟨?_, fun resolve hown => ?_, fun k slot hslot hname => ?_,
    fun j k first second range other hfirst hsecond hname hother => ?_⟩
  · rcases hcompiled.kind with hpositional | hnamed
    · rw [hpositional.unnamed]
      exact hpositional.own hsound.slots_text
    · rw [if_neg (by simpa using hnamed.some_name)]
      exact hnamed.own hsound.slots_text
  · have hslots : ∀ slot ∈ scan.slots, 0 ≤ slot.start ∧ slot.start < slot.stop ∧
        slot.stop ≤ query.length := fun slot hmem =>
      ⟨Nat.zero_le _, (hsound.slots slot hmem).1, (hsound.slots slot hmem).2.1⟩
    have hrender := renderFrom_own hown hsound.slots_ordered hslots (Nat.zero_le _)
    rw [QueryTemplate.render, hcompiled.segments, hcompiled.segmentStart, hrender]
    simp [slice]
  · obtain ⟨hlt, rfl⟩ := List.getElem?_eq_some_iff.mp hslot
    rcases hcompiled.kind with hpositional | hnamed
    · exact hpositional.parameter hlt
    · obtain ⟨range, _, hrange, -⟩ :=
        hnamed.slots.get (hnamed.slots.length_eq ▸ hlt) hlt
      rw [List.get_eq_getElem, hname] at hrange
      cases hrange
  · rcases hcompiled.kind with hpositional | hnamed
    · rw [hpositional.names first (List.mem_of_getElem? hfirst)] at hname
      cases hname
    · obtain ⟨m, hm, hmname⟩ := hnamed.parameter hfirst hname
      obtain ⟨n, hn, hnname⟩ := hnamed.parameter hsecond hother
      refine ⟨m, n, hm, hn, fun heq => ?_, fun heq => ?_⟩
      · rw [heq, ← hnname] at hmname
        exact (List.getElem?_inj (List.getElem?_eq_some_iff.mp (hmname.trans hnname)).1
          hnamed.nodup).mp hmname
      · rw [heq, hnname] at hmname
        exact (Option.some.inj hmname).symm

theorem scan_structurally_sound (isAlphanumeric : Bytes → Bool) (query : Utf8.Str) :
    (∀ scan, Reached isAlphanumeric query.bytes scan →
      scan.index ≤ query.bytes.length ∧ isCharBoundary query.bytes scan.index = true) ∧
    ((∃ final, Reached isAlphanumeric query.bytes final ∧ final.index = query.bytes.length ∧
        scanFrom isAlphanumeric .new none 0 query.bytes = .ok final) ∨
      ∃ last b rest error, Reached isAlphanumeric query.bytes last ∧
        query.bytes.drop last.index = b :: rest ∧
        lex isAlphanumeric last.state (query.bytes.take last.index).getLast? b rest = .error error ∧
        scanFrom isAlphanumeric .new none 0 query.bytes = .error error) ∧
    ∀ scan, scanQuery isAlphanumeric query.bytes = .ok scan →
      SoundScan query.bytes scan ∧ ∀ template, compileQuery isAlphanumeric query.bytes = .ok template →
        SoundTemplate query.bytes scan template := by
  refine ⟨fun scan h => ?_, scan_ends_from query.utf8 .start, fun scan hscan => ?_⟩
  · have hwhole := h.whole query.utf8
    exact ⟨hwhole.1, isCharBoundary_of_whole hwhole⟩
  · have hsound := scanQuery_sound query.utf8 hscan
    exact ⟨hsound, fun template h => compileQuery_sound hscan hsound h⟩

theorem repeated_name_soundly_scanned :
    ∃ scan template, scanQuery (fun _ => false) (ascii "SELECT :a, :a") = .ok scan ∧
      compileQuery (fun _ => false) (ascii "SELECT :a, :a") = .ok template ∧
      scan.slots.length = 2 ∧ SoundScan (ascii "SELECT :a, :a") scan ∧
      SoundTemplate (ascii "SELECT :a, :a") scan template := by
  have hscan : scanQuery (fun _ => false) (ascii "SELECT :a, :a") = .ok
      ⟨[(0, 13)], [⟨7, 9, some (8, 9), false⟩, ⟨11, 13, some (12, 13), false⟩], some (0, 6), false⟩ := by
    decide +kernel
  have hcompile : compileQuery (fun _ => false) (ascii "SELECT :a, :a") = .ok
      ⟨ascii "SELECT :a, :a", [(0, 7), (9, 11), (13, 13)],
        [⟨.named 0, false⟩, ⟨.named 0, false⟩], .named [ascii "a"]⟩ := by
    decide +kernel
  obtain ⟨hsound, htemplate⟩ := (scan_structurally_sound (fun _ => false)
    ⟨ascii "SELECT :a, :a", by decide⟩).2.2 _ hscan
  exact ⟨_, _, hscan, hcompile, rfl, hsound, htemplate _ hcompile⟩

end MonetdbAdbc.Sql
