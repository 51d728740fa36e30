import Dalvik.Proofs.Class.Copies
import Dalvik.Proofs.Code.Limits

/-!
# The numbers of a class that is read are small

Flags of members are written in full and read up to `extentBound`, and so are the numbers
of bodies. Restrictions of members are written with all bits of their domains, and read if
the bits are of no others than there are. So a class whose members are told apart and that
has been copied has small numbers only (`StoredClass.Shows.small_of_toClass`), and a sound
class with small numbers and arranged references can be read (`ClassDef.Sound.readable`).
-/

namespace Dalvik

/-- The bodies of a class are sound. -/
def ClassDef.Sound (c : ClassDef) : Prop :=
  ∀ m ∈ c.methods, ∀ code ∈ m.code, code.Sound

/-- The numbers of a class that the readers take up to `extentBound`. -/
structure ClassDef.Small (c : ClassDef) : Prop where
  fieldFlags : ∀ f ∈ c.fields, f.flags.bits.toNat < extentBound
  methodFlags : ∀ m ∈ c.methods, m.flags.bits.toNat < extentBound
  restrictions : ∀ r ∈ c.restrictions, ∀ h ∈ r, h.value < 32
  code : ∀ m ∈ c.methods, ∀ code ∈ m.code, code.Small

/-- The references of the bodies of a class are arranged. -/
def ClassDef.ReferencesArranged (c : ClassDef) : Prop :=
  ∀ m ∈ c.methods, ∀ code ∈ m.code, ∀ i ∈ code.instructions, ∀ slot ∈ i.slots, slot.2.arranged = slot.2

theorem ClassDef.Sound.readable {c : ClassDef} (h : c.Sound) (hsmall : c.Small) (harranged : c.ReferencesArranged) :
    c.Readable where
  fieldFlags := hsmall.fieldFlags
  methodFlags := hsmall.methodFlags
  restrictions := hsmall.restrictions
  code m hm code hcode := (h m hm code hcode).readable (hsmall.code m hm code hcode) (harranged m hm code hcode)

theorem ClassDef.Readable.small {c : ClassDef} (h : c.Readable) : c.Small where
  fieldFlags := h.fieldFlags
  methodFlags := h.methodFlags
  restrictions := h.restrictions
  code m hm code hcode :=
    have hcode := h.code m hm code hcode
    ⟨fun t ht => (hcode.tries t ht).start_lt, fun t ht => (hcode.tries t ht).address_lt, hcode.debug, hcode.line_lt⟩

namespace Blueprint.Opens

open Read

variable {b : Blueprint} {t : DataTables} {image : Image} (h : b.Opens t image) (hs : b.Settled) {c : ClassDef}
  (hc : c ∈ b.classes) {m : MethodDef} (hm : m ∈ c.methods) {code : Code} (hcode : m.code = some code)

include h hs hc hm hcode

/-- A body that has been copied has small numbers. -/
theorem small_of_toCode {stored : StoredCode} (himage : stored.image = image)
    (hshows : CodeItem.Shows stored b.pools.numbering code (offsetIn t.debug m.sig).toNat) (hsound : code.Sound)
    {copy : Code} (hcopy : stored.view.toCode = .ok copy) : code.Small := by
  subst himage
  have hundoes := h.resolver_undoes hs.toComplete
  obtain ⟨_, -, hcopy⟩ := Result.bind_eq_ok hcopy
  obtain ⟨tries, htries, hcopy⟩ := Result.bind_eq_ok hcopy
  obtain ⟨debug, hdebug, -⟩ := Result.bind_eq_ok hcopy
  have hreadable := hshows.tries_readable hundoes hsound.handlers h.size_lt htries
  have hitems : DebugItem.Readable 0 code.debug ∧ (DebugInfo.firstLine code.debug).toNat < extentBound := by
    rcases h.exists_debug hs hc hm hcode with ⟨-, hempty, -⟩ | ⟨form, hform, hheld, hne, -⟩
    · rw [hempty]
      exact ⟨⟨.singleton _, fun _ hmem => nomatch hmem⟩, by decide⟩
    · rw [← hshows.debugOffset_eq] at hheld
      refine DebugInfo.readable_of_debugItems hundoes.values hform hheld h.size_lt ?_ (Result.clean_of_collect hdebug)
      rw [hshows.debugOffset_eq]
      exact fun hzero => hne (UInt32.toNat_inj.mp hzero)
  exact ⟨fun t ht => (hreadable t ht).start_lt, fun t ht => (hreadable t ht).address_lt, hitems.1, hitems.2⟩

end Blueprint.Opens

namespace StoredClass

open Members Read

variable {s : StoredClass} {b : Blueprint} {t : Blueprint.DataTables} {c : ClassDef}

/-! ## Lists of members -/

/-- The entries of members that have been copied have been read. -/
theorem clean_of_copies {α β γ δ : Type} {outcomes : List (Result α)} {read : α → Result β} {view : β → γ}
    {copy : γ → Result δ} {copies : List δ}
    (h : Result.collect (((outcomes.map fun r => r >>= read).map fun r => r.map view).map fun r => r >>= copy) =
      .ok copies) : Result.Clean outcomes := fun r hr => by
  obtain ⟨_, hcopy⟩ := Result.clean_of_collect h _ (List.mem_map_of_mem (List.mem_map_of_mem (List.mem_map_of_mem hr)))
  obtain ⟨_, hview, -⟩ := Result.bind_eq_ok hcopy
  obtain ⟨_, hread, -⟩ := Result.map_eq_ok hview
  obtain ⟨a, ha, -⟩ := Result.bind_eq_ok hread
  exact ⟨a, ha⟩

/-- What has been copied of a list is copied entry by entry. -/
theorem forall₂_of_copies {α β γ δ : Type} {entries : List α} {read : α → Result β} {view : β → γ}
    {copy : γ → Result δ} {copies : List δ}
    (h : Result.collect ((((entries.map .ok).map fun r => r >>= read).map fun r => r.map view).map
      fun r => r >>= copy) = .ok copies) :
    List.Forall₂ (fun entry d => ∃ b, read entry = .ok b ∧ copy (view b) = .ok d) entries copies := by
  rw [List.map_map, List.map_map, List.map_map, Result.collect] at h
  refine (List.forall₂_map_left_iff.mp (Result.forall₂_of_mapM h)).imp fun entry d hd => ?_
  obtain ⟨_, hview, hcopy⟩ := Result.bind_eq_ok hd
  obtain ⟨b, hread, rfl⟩ := Result.map_eq_ok hview
  exact ⟨b, hread, hcopy⟩

/-- The class data of a class say something of each field. -/
theorem exists_row_of_field {f : FieldDef} (hf : f ∈ c.fields) :
    ∃ kind, kind.isMethod = false ∧ ∃ row ∈ b.rows t c.kept kind, row.own = (b.fieldRow f).own := by
  have hrow {kind : MemberKind} (hmem : b.fieldRow f ∈ b.rows t c kind) :
      ∃ row ∈ b.rows t c.kept kind, row.own = (b.fieldRow f).own :=
    List.mem_map.mp (Blueprint.map_own_rows_kept b t c kind ▸ List.mem_map_of_mem hmem)
  rcases List.mem_append.mp hf with hf | hf
  · exact ⟨.staticField, rfl, hrow (List.mem_map_of_mem hf)⟩
  · exact ⟨.instanceField, rfl, hrow (List.mem_map_of_mem hf)⟩

/-- The class data of a class say something of each method. -/
theorem exists_row_of_method {m : MethodDef} (hm : m ∈ c.methods) :
    ∃ kind, kind.isMethod = true ∧ ∃ row ∈ b.rows t c.kept kind, row.own = (b.methodRow t m).own := by
  have hrow {kind : MemberKind} (hmem : b.methodRow t m ∈ b.rows t c kind) :
      ∃ row ∈ b.rows t c.kept kind, row.own = (b.methodRow t m).own :=
    List.mem_map.mp (Blueprint.map_own_rows_kept b t c kind ▸ List.mem_map_of_mem hmem)
  rcases List.mem_append.mp hm with hm | hm
  · exact ⟨.directMethod, rfl, hrow (List.mem_map_of_mem hm)⟩
  · exact ⟨.virtualMethod, rfl, hrow (List.mem_map_of_mem hm)⟩

/-- The class data of a class restrict each member as the file does. -/
theorem exists_row_of_restrictions {r : Option HiddenApi} (hr : r ∈ c.restrictions) :
    ∃ kind, ∃ row ∈ b.rows t c.kept kind, row.hidden = c.keptHidden r := by
  obtain ⟨kind, hkind⟩ := MemberKind.mem_concat.mp (c.restrictions_eq ▸ hr)
  exact ⟨kind, List.mem_map.mp (Blueprint.map_hidden_rows b t c kind ▸ List.mem_map_of_mem hkind)⟩

/-- A field that has been copied has its restrictions read. -/
theorem exists_hidden_of_field {entry : MemberEntry} {stored : StoredField} (hstored : s.field entry = .ok stored)
    {copy : FieldDef} (hcopy : stored.view.toField = .ok copy) : ∃ r, hiddenApiOf entry.hiddenFlags = .ok r := by
  obtain ⟨_, -, hcopy⟩ := Result.bind_eq_ok hcopy
  obtain ⟨_, -, hcopy⟩ := Result.bind_eq_ok hcopy
  obtain ⟨_, -, hcopy⟩ := Result.bind_eq_ok hcopy
  obtain ⟨_, -, hcopy⟩ := Result.bind_eq_ok hcopy
  obtain ⟨_, -, hcopy⟩ := Result.bind_eq_ok hcopy
  obtain ⟨r, hhidden, -⟩ := Result.bind_eq_ok hcopy
  obtain ⟨_, -, hstored⟩ := Result.bind_eq_ok hstored
  cases hstored
  exact ⟨r, hhidden⟩

/-- A method that has been copied has its restrictions read. -/
theorem exists_hidden_of_method {entry : MemberEntry} {stored : StoredMethod} (hstored : s.method entry = .ok stored)
    {copy : MethodDef} (hcopy : stored.view.toMethod = .ok copy) : ∃ r, hiddenApiOf entry.hiddenFlags = .ok r := by
  obtain ⟨_, -, hcopy⟩ := Result.bind_eq_ok hcopy
  obtain ⟨_, -, hcopy⟩ := Result.bind_eq_ok (Result.within_eq_ok hcopy)
  obtain ⟨_, -, hcopy⟩ := Result.bind_eq_ok hcopy
  obtain ⟨_, -, hcopy⟩ := Result.bind_eq_ok hcopy
  obtain ⟨_, -, hcopy⟩ := Result.bind_eq_ok hcopy
  obtain ⟨_, -, hcopy⟩ := Result.bind_eq_ok hcopy
  obtain ⟨r, hhidden, -⟩ := Result.bind_eq_ok hcopy
  obtain ⟨_, -, hstored⟩ := Result.bind_eq_ok hstored
  obtain ⟨_, -, hstored⟩ := Result.bind_eq_ok hstored
  cases hstored
  exact ⟨r, hhidden⟩

/-- Fields that have been copied have their restrictions read. -/
theorem exists_hidden_of_fields {kind : MemberKind} {copies : List FieldDef}
    (hcopies : FieldView.collect ((s.fields kind).map fun f => f.map StoredField.view) = .ok copies)
    {entries : List MemberEntry} (hentries : s.entries kind = entries.map .ok) {entry : MemberEntry}
    (hentry : entry ∈ entries) : ∃ r, hiddenApiOf entry.hiddenFlags = .ok r := by
  rw [FieldView.collect, StoredClass.fields, hentries] at hcopies
  obtain ⟨copy, -, stored, hstored, hcopy⟩ := exists_mem_right (forall₂_of_copies hcopies) hentry
  exact exists_hidden_of_field hstored hcopy

/-- Methods that have been copied have their restrictions read. -/
theorem exists_hidden_of_methods {kind : MemberKind} {copies : List MethodDef}
    (hcopies : MethodView.collect ((s.methods kind).map fun m => m.map StoredMethod.view) = .ok copies)
    {entries : List MemberEntry} (hentries : s.entries kind = entries.map .ok) {entry : MemberEntry}
    (hentry : entry ∈ entries) : ∃ r, hiddenApiOf entry.hiddenFlags = .ok r := by
  rw [MethodView.collect, StoredClass.methods, hentries] at hcopies
  obtain ⟨copy, -, stored, hstored, hcopy⟩ := exists_mem_right (forall₂_of_copies hcopies) hentry
  exact exists_hidden_of_method hstored hcopy

/-- A method that has been copied has its body copied, if it has one. -/
theorem exists_of_method {entry : MemberEntry} {copy : MethodDef}
    (h : (s.method entry).map StoredMethod.view >>= MethodView.toMethod = .ok copy) (hoffset : entry.codeOffset ≠ 0)
    {stored : StoredCode} (hat : StoredCode.at? s.image entry.codeOffset = .ok stored) :
    ∃ code, stored.view.toCode = .ok code := by
  obtain ⟨view, hview, h⟩ := Result.bind_eq_ok h
  obtain ⟨m, hmethod, rfl⟩ := Result.map_eq_ok hview
  obtain ⟨_, -, hmethod⟩ := Result.bind_eq_ok hmethod
  obtain ⟨_, -, hmethod⟩ := Result.bind_eq_ok hmethod
  obtain ⟨_, -, h⟩ := Result.bind_eq_ok h
  obtain ⟨code?, hcode, -⟩ := Result.bind_eq_ok (Result.within_eq_ok h)
  obtain ⟨found, hfound, hcode⟩ := Result.bind_eq_ok hcode
  have hcodeAt : m.view.code = .ok (some stored.view) := by
    rw [← Except.ok.inj hmethod]
    show ((if entry.codeOffset = 0 then .ok none else (StoredCode.at? s.image entry.codeOffset).map some :
      Result (Option StoredCode))).map _ = _
    rw [if_neg hoffset, hat]
    rfl
  cases hcodeAt.symm.trans hfound
  obtain ⟨code, hcopy, -⟩ := Result.bind_eq_ok hcode
  exact ⟨code, hcopy⟩

namespace Shows

variable (h : s.Shows b t c) (hs : b.Settled)

include h hs

/-- Methods that have been copied have bodies with small numbers. -/
theorem small_of_methods (hcovers : s.image.opcodes.Covers b.opcodes) (hsound : c.Sound) {kind : MemberKind}
    (hkind : kind.isMethod = true) {copies : List MethodDef}
    (hcopies : MethodView.collect ((s.methods kind).map fun m => m.map StoredMethod.view) = .ok copies)
    (hflags : ∀ row ∈ b.rows t c.kept kind, row.own.flags.toNat < extentBound) {m : MethodDef} (hm : m ∈ c.methods)
    {row : Row} (hrow : row ∈ b.rows t c.kept kind) (hown : row.own = (b.methodRow t m).own) {code : Code}
    (hcode : m.code = some code) : code.Small := by
  obtain ⟨entries, hentries, hall⟩ := h.exists_entries hs.toComplete kind fun row hrow =>
    ⟨hflags row hrow, h.own_code_lt hrow⟩
  obtain ⟨entry, hentry, hisEntry⟩ := exists_mem_right hall hrow
  rw [MethodView.collect, StoredClass.methods, hentries, List.map_map, List.map_map, List.map_map] at hcopies
  obtain ⟨copy, hcopy⟩ := Result.clean_of_collect hcopies _ (List.mem_map_of_mem hentry)
  have hoffset : entry.codeOffset = (offsetIn t.code m.sig).toNat := by
    rw [hisEntry.codeOffset, if_pos hkind, hown]
    rfl
  obtain ⟨hne, stored, hat, himage, hshows⟩ := h.opens.exists_body hs h.mem hm hcovers hcode
    (hsound m hm code hcode).instructions
  obtain ⟨codeCopy, hcodeCopy⟩ := exists_of_method hcopy (hoffset ▸ hne) (hoffset ▸ hat)
  exact h.opens.small_of_toCode hs h.mem hm hcode himage hshows (hsound m hm code hcode) hcodeCopy

/-- A class that has been copied has small numbers. -/
theorem small_of_toClass (hcovers : s.image.opcodes.Covers b.opcodes) (hsound : c.Sound) {copy : ClassDef}
    (hcopy : s.view.toClass = .ok copy) : c.Small := by
  obtain ⟨type, -, hcopy⟩ := Result.bind_eq_ok hcopy
  obtain ⟨_, -, hcopy⟩ := Result.bind_eq_ok (Result.within_eq_ok hcopy)
  obtain ⟨_, -, hcopy⟩ := Result.bind_eq_ok hcopy
  obtain ⟨_, -, hcopy⟩ := Result.bind_eq_ok hcopy
  obtain ⟨_, -, hcopy⟩ := Result.bind_eq_ok hcopy
  obtain ⟨statics, hstatics, hcopy⟩ := Result.bind_eq_ok hcopy
  obtain ⟨instances, hinstances, hcopy⟩ := Result.bind_eq_ok hcopy
  obtain ⟨directs, hdirects, hcopy⟩ := Result.bind_eq_ok hcopy
  obtain ⟨virtuals, hvirtuals, -⟩ := Result.bind_eq_ok hcopy
  have hmethods : ∀ kind, kind.isMethod = true → ∃ copies, MethodView.collect ((s.methods kind).map
      fun m => m.map StoredMethod.view) = .ok copies
    | .directMethod, _ => ⟨directs, hdirects⟩
    | .virtualMethod, _ => ⟨virtuals, hvirtuals⟩
  have hclean : ∀ kind, Result.Clean (s.entries kind)
    | .staticField => clean_of_copies hstatics
    | .instanceField => clean_of_copies hinstances
    | .directMethod => clean_of_copies hdirects
    | .virtualMethod => clean_of_copies hvirtuals
  have hflags : ∀ kind, ∀ row ∈ b.rows t c.kept kind, row.own.flags.toNat < extentBound := fun kind =>
    h.flags_lt_of_entries hs.toComplete kind (fun row hrow => h.own_code_lt hrow) (hclean kind)
  have hhidden : ∀ (kind : MemberKind) (entries : List MemberEntry), s.entries kind = entries.map .ok → ∀ entry ∈ entries,
      ∃ r, hiddenApiOf entry.hiddenFlags = .ok r
    | kind, entries, hentries, entry, hentry => by
      cases kind with
      | staticField => exact exists_hidden_of_fields hstatics hentries hentry
      | instanceField => exact exists_hidden_of_fields hinstances hentries hentry
      | directMethod => exact exists_hidden_of_methods hdirects hentries hentry
      | virtualMethod => exact exists_hidden_of_methods hvirtuals hentries hentry
  refine ⟨fun f hf => ?_, fun m hm => ?_, fun r hr => ?_, fun m hm code hcode => ?_⟩
  · obtain ⟨kind, -, row, hrow, heq⟩ := exists_row_of_field hf
    have hlt := hflags kind row hrow
    rwa [heq] at hlt
  · obtain ⟨kind, -, row, hrow, heq⟩ := exists_row_of_method hm
    have hlt := hflags kind row hrow
    rwa [heq] at hlt
  · obtain ⟨kind, row, hrow, heq⟩ := exists_row_of_restrictions (b := b) (t := t) hr
    obtain ⟨entries, hentries, hall⟩ := h.exists_entries hs.toComplete kind fun row hrow =>
      ⟨hflags kind row hrow, h.own_code_lt hrow⟩
    obtain ⟨entry, hentry, hisEntry⟩ := exists_mem_right hall hrow
    obtain ⟨r', hread⟩ := hhidden kind entries hentries entry hentry
    exact ClassDef.value_lt_of_reread hr (heq ▸ hisEntry.hidden.symm.trans hread)
  · obtain ⟨kind, hkind, row, hrow, heq⟩ := exists_row_of_method hm
    obtain ⟨copies, hcopies⟩ := hmethods kind hkind
    exact h.small_of_methods hs hcovers hsound hkind hcopies (hflags kind) hm hrow heq hcode

end Shows

end StoredClass

/-! ## Files -/

/-- If a file whose members are told apart has been copied, its classes have small numbers. -/
theorem Blueprint.Opens.small_of_toDexFile {b : Blueprint} {t : DataTables} {image : Image} (h : b.Opens t image)
    (hs : b.Settled) (hcovers : image.opcodes.Covers b.opcodes) (hsound : ∀ c ∈ b.classes, c.Sound) {d : DexFile}
    (hcopy : image.toDexFile = .ok d) : ∀ c ∈ b.classes, c.Small := by
  intro c hc
  obtain ⟨i, hi⟩ := List.getElem?_of_mem hc
  obtain ⟨s, hat, rfl, hshows⟩ := h.exists_shown hs hi
  obtain ⟨classes, hclasses, -⟩ := Result.bind_eq_ok hcopy
  have hcount : i < s.image.header.classDefs.size.toNat := by
    rw [h.classDefs, h.identified.classes.size_eq, List.length_map]
    exact (List.getElem?_eq_some_iff.mp hi).1
  obtain ⟨copy, hget⟩ := Result.exists_of_collect hclasses hcount
  have hclass : (StoredClass.at? s.image (UInt32.ofNat i)).map StoredClass.view >>= ClassView.toClass = .ok copy := hget
  rw [hat] at hclass
  exact hshows.small_of_toClass hs hcovers (hsound c hc) hclass

end Dalvik
