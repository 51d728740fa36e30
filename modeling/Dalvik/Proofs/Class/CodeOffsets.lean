import Dalvik.Proofs.Assembly.Preservation
import Dalvik.Proofs.Code.Extent

/-!
# The bodies that the class data lead to

The offsets of code items are kept by signature, and a later offset replaces an earlier one. So
an entry of the class data leads to the code item of the last method with its signature that has
a body (`Blueprint.Opens.exists_codeItems`), and this is that of the method itself, if its class
has no other with the signature (`Blueprint.CodeItems.of_alone`). `Assembly.bodies_listed` says
so of the class data of a file. The members of one list are told apart
(`StoredClass.IsList.ascending`), but not those of two lists: a method may be listed twice, and
then one of the two bodies is lost.
-/

namespace Dalvik

open StoredClass (Own IsList)

/-! ## Tables in which later entries count -/

section table

variable {κ ε : Type} [BEq κ] [Hashable κ] [LawfulBEq κ]

/-- Of the entries with a key the last one counts. -/
theorem offsetIn_ofList_cases (entry : ε → κ × Nat) (entries : List ε) (key : κ) :
    (offsetIn (.ofList (entries.map entry)) key = noOffset ∧ ∀ e ∈ entries, (entry e).1 ≠ key) ∨
      ∃ before e after, entries = before ++ e :: after ∧ (entry e).1 = key ∧
        (∀ later ∈ after, (entry later).1 ≠ key) ∧
        offsetIn (.ofList (entries.map entry)) key = UInt32.ofNat (entry e).2 := by
  -- From the end: if the last entry has the key it is the one that is found.
  induction entries using List.reverseRecOn with
  | nil => exact .inl ⟨by simp [offsetIn], List.forall_mem_nil _⟩
  | append_singleton entries last ih =>
    have hinsert : (Std.HashMap.ofList ((entries ++ [last]).map entry))[key]? =
        if (entry last).1 == key then some (entry last).2 else (Std.HashMap.ofList (entries.map entry))[key]? := by
      rw [List.map_append, List.map_singleton, Std.HashMap.ofList_eq_insertMany_empty, Std.HashMap.insertMany_append,
        Std.HashMap.insertMany_list_singleton, Std.HashMap.getElem?_insert, ← Std.HashMap.ofList_eq_insertMany_empty]
    by_cases hlast : (entry last).1 = key
    · refine .inr ⟨entries, last, [], rfl, hlast, List.forall_mem_nil _, ?_⟩
      rw [offsetIn, hinsert, if_pos (beq_iff_eq.mpr hlast)]
    · have hsame : offsetIn (.ofList ((entries ++ [last]).map entry)) key =
          offsetIn (.ofList (entries.map entry)) key := by
        rw [offsetIn, hinsert, if_neg (by simpa using hlast), offsetIn]
      rw [hsame]
      rcases ih with ⟨hnone, hall⟩ | ⟨before, e, after, rfl, hkey, hafter, hfound⟩
      · refine .inl ⟨hnone, List.forall_mem_append.mpr ⟨hall, ?_⟩⟩
        rwa [List.forall_mem_singleton]
      · refine .inr ⟨before, e, after ++ [last], by simp, hkey, List.forall_mem_append.mpr ⟨hafter, ?_⟩, hfound⟩
        rwa [List.forall_mem_singleton]

end table

/-! ## Code items -/

/-- The code items of a file: each method with a body has one, in the order of the methods, and
what `code` has for a signature is the offset of the last item of a method with this signature. -/
structure Blueprint.CodeItems (b : Blueprint) (image : Image) (items : List ((ClassDef × MethodDef) × UInt32))
    (code : MethodSig → UInt32) : Prop where
  methods : items.map Prod.fst = b.methods.filter fun cm => cm.2.code.isSome
  stands : ∀ item ∈ items, item.2 ≠ noOffset ∧ ∀ body ∈ item.1.2.code, ∃ debugOffset form,
    CodeItem.encode b.pools.numbering b.opcodes item.1.2 body debugOffset = .ok form ∧
    image.bytes.Holds item.2.toNat form
  ascending : (items.map Prod.snd).Pairwise (· < ·)
  last : ∀ sig, (code sig = noOffset ∧ ∀ item ∈ items, item.1.2.sig ≠ sig) ∨
    ∃ before item after, items = before ++ item :: after ∧ item.1.2.sig = sig ∧
      (∀ later ∈ after, later.1.2.sig ≠ sig) ∧ code sig = item.2

namespace Blueprint

variable {b : Blueprint} {t : DataTables} {image : Image}

/-- A method that is alone with its signature is listed with its own code item. -/
theorem CodeItems.of_alone {items : List ((ClassDef × MethodDef) × UInt32)} {code : MethodSig → UInt32}
    (h : b.CodeItems image items code) {cm : ClassDef × MethodDef} (hcm : cm ∈ b.methods)
    (halone : ∀ cm' ∈ b.methods, cm'.2.sig = cm.2.sig → cm' = cm) :
    (cm.2.code = none → code cm.2.sig = noOffset) ∧ (cm.2.code.isSome → (cm, code cm.2.sig) ∈ items) := by
  have hmem : ∀ item ∈ items, item.1 ∈ b.methods ∧ item.1.2.code.isSome := fun item hitem =>
    List.mem_filter.mp (h.methods ▸ List.mem_map_of_mem hitem)
  rcases h.last cm.2.sig with ⟨hnone, hall⟩ | ⟨before, item, after, rfl, hsig, -, hfound⟩
  · refine ⟨fun _ => hnone, fun hbody => ?_⟩
    have hcm : cm ∈ items.map Prod.fst := h.methods ▸ List.mem_filter.mpr ⟨hcm, hbody⟩
    obtain ⟨item, hitem, rfl⟩ := List.mem_map.mp hcm
    exact absurd rfl (hall item hitem)
  · have hitem : item ∈ before ++ item :: after := by simp
    obtain ⟨hmethod, hbody⟩ := hmem item hitem
    obtain rfl : item.1 = cm := halone item.1 hmethod hsig
    refine ⟨fun hnone => ?_, fun _ => hfound ▸ hitem⟩
    rw [hnone] at hbody
    cases hbody

/-- An offset belongs to one item. -/
theorem CodeItems.eq_of_snd_eq {items : List ((ClassDef × MethodDef) × UInt32)} {code : MethodSig → UInt32}
    (h : b.CodeItems image items code) {item item' : (ClassDef × MethodDef) × UInt32} (hitem : item ∈ items)
    (hitem' : item' ∈ items) (hsame : item.2 = item'.2) : item = item' :=
  List.inj_on_of_nodup_map (h.ascending.imp UInt32.ne_of_lt) hitem hitem' hsame

theorem forall₂_filter_filterMap {α β : Type} {R : α → Option β → Prop} {S : α → β → Prop} {p : α → Bool}
    (hnone : ∀ a, R a none → p a = false) (hsome : ∀ a b, R a (some b) → p a = true ∧ S a b) {l : List α}
    {l' : List (Option β)} (h : List.Forall₂ R l l') : List.Forall₂ S (l.filter p) (l'.filterMap id) := by
  induction h with
  | nil => exact .nil
  | @cons a b? l l' hab _ ih =>
    cases b? with
    | none =>
      rw [List.filter_cons_of_neg (by simp [hnone a hab])]
      exact ih
    | some b =>
      obtain ⟨hp, hS⟩ := hsome a b hab
      rw [List.filter_cons_of_pos hp]
      exact .cons hS ih

/-- The code items of the methods with a body have been made one after the other. -/
theorem forall₂_codeItems {debug : Std.HashMap MethodSig Nat} {made : List (MethodSig × List UInt8)}
    (h : b.codeItems debug = .ok made) : List.Forall₂ (fun cm item => item.1 = cm.2.sig ∧
      ∀ body ∈ cm.2.code, ∃ debugOffset, CodeItem.encode b.pools.numbering b.opcodes cm.2 body debugOffset = .ok item.2)
    (b.methods.filter fun cm => cm.2.code.isSome) made := by
  obtain ⟨made?, hmade?, hmade⟩ := Result.bind_eq_ok h
  cases hmade
  refine forall₂_filter_filterMap (fun cm hitem => ?_) (fun cm item hitem => ?_) (Result.forall₂_of_mapM hmade?)
  · replace hitem : b.codeItem? debug cm.1 cm.2 = .ok none := hitem
    unfold codeItem? at hitem
    split at hitem
    · rename_i hcode
      rw [hcode]
      rfl
    · obtain ⟨_, -, hitem⟩ := Result.bind_eq_ok hitem
      cases hitem
  · replace hitem : b.codeItem? debug cm.1 cm.2 = .ok (some item) := hitem
    refine ⟨?_, fst_of_codeItem? hitem, ?_⟩ <;> unfold codeItem? at hitem <;> split at hitem
    · cases hitem
    · rename_i hcode
      rw [hcode]
      rfl
    · cases hitem
    · rename_i body hcode
      obtain ⟨form, hform, hitem⟩ := Result.bind_eq_ok hitem
      cases hitem
      rintro _ hbody
      cases hcode.symm.trans hbody
      exact ⟨_, Result.within_eq_ok hform⟩

/-- The table of code items has the last one for a signature. -/
theorem Opens.exists_codeItems (h : b.Opens t image) : ∃ items, b.CodeItems image items (offsetIn t.code) := by
  obtain ⟨made, hmade, placed, htable, hplaced, hascends⟩ := h.data.code
  obtain ⟨hlength, hzip⟩ := List.forall₂_iff_zip.mp
    (forall₂_trans (forall₂_codeItems hmade) hplaced.flip)
  have hvalue : ∀ pair ∈ (b.methods.filter fun cm => cm.2.code.isSome).zip placed,
      (UInt32.ofNat pair.2.2).toNat = pair.2.2 := fun pair hpair => by
    obtain ⟨item, -, -, -, hheld⟩ := hzip hpair
    exact Draft.Stands.toNat_offset hheld h.size_lt
  -- The offsets are kept as numbers of any size. They are places in the file, so words hold them.
  obtain ⟨items, hitems⟩ : ∃ items, items = ((b.methods.filter fun cm => cm.2.code.isSome).zip placed).map
      fun pair => (pair.1, UInt32.ofNat pair.2.2) := ⟨_, rfl⟩
  have hentries : placed = items.map fun item => (item.1.2.sig, item.2.toNat) := by
    rw [hitems, List.map_map]
    refine (List.map_snd_zip hlength.ge).symm.trans (List.map_congr_left fun pair hpair => ?_)
    obtain ⟨item, ⟨hsig, -⟩, hkey, -⟩ := hzip hpair
    exact Prod.ext (hkey.trans hsig) (hvalue pair hpair).symm
  refine ⟨items, ?_, fun item hitem => ?_, ?_, fun sig => ?_⟩
  · rw [hitems, List.map_map]
    exact List.map_fst_zip hlength.le
  · rw [hitems] at hitem
    obtain ⟨pair, hpair, rfl⟩ := List.mem_map.mp hitem
    obtain ⟨⟨_, form⟩, ⟨-, hform⟩, -, hpos, hheld⟩ := hzip hpair
    have hoffset := hvalue pair hpair
    refine ⟨fun hzero => Nat.ne_of_gt hpos (hoffset.symm.trans (congrArg UInt32.toNat hzero)), fun body hbody => ?_⟩
    obtain ⟨debugOffset, hform⟩ := hform body hbody
    exact ⟨debugOffset, form, hform, hoffset.symm ▸ hheld⟩
  · have hascends := hascends (codeItems_ne_nil hmade)
    rw [hentries, List.pairwise_map] at hascends
    exact List.pairwise_map.mpr (hascends.imp UInt32.lt_iff_toNat_lt.mpr)
  · rw [htable, hentries]
    rcases offsetIn_ofList_cases (fun item => (item.1.2.sig, item.2.toNat)) items sig with
      hnone | ⟨before, item, after, hsplit, hkey, hafter, hfound⟩
    · exact .inl hnone
    · exact .inr ⟨before, item, after, hsplit, hkey, hafter, hfound.trans UInt32.ofNat_toNat⟩

end Blueprint

/-! ## Class data -/

namespace StoredClass

/-- A list of the class data has certain entries. They are read if their flags are small. -/
structure HasList (s : StoredClass) (kind : MemberKind) (owns : List Own) : Prop where
  count : s.count kind = owns.length
  stands : ∃ offset form, s.listStart kind = .ok offset ∧ IsList kind owns form ∧ s.image.bytes.Holds offset.toNat form
  entries : (∀ own ∈ owns, own.flags.toNat < extentBound) → ∃ entries, s.entries kind = entries.map .ok ∧
    List.Forall₂ (fun own entry => entry.index = own.index ∧ entry.codeOffset = own.code.toNat) owns entries

/-- The indices of a list ascend. -/
theorem IsList.ascending {kind : MemberKind} {owns : List Own} {form : List UInt8} (h : IsList kind owns form) :
    (owns.map Own.index).Pairwise (· < ·) := by
  obtain ⟨cause, ds, hds, -⟩ := h
  by_contra hnot
  rw [Members.deltas_eq_fail none fun hchain => hnot (List.isChain_iff_pairwise.mp hchain)] at hds
  cases hds

/-- Members whose indices ascend are told apart by what gives the indices. -/
theorem nodup_of_ascending {μ κ : Type} (index : κ → UInt32) {key : μ → κ} {own : μ → Own} {members : List μ}
    (hindex : ∀ m, (own m).index = index (key m)) (h : ((members.map own).map Own.index).Pairwise (· < ·)) :
    (members.map key).Nodup := by
  have hindices : (members.map own).map Own.index = (members.map key).map index := by
    rw [List.map_map, List.map_map]
    exact List.map_congr_left fun m _ => hindex m
  rw [hindices] at h
  exact List.Nodup.of_map index (h.imp UInt32.ne_of_lt)

end StoredClass

/-- The entries of a class in the class data: methods are listed with what `code` has for their
signatures. -/
def ClassDef.owns (c : ClassDef) (p : Pools) (code : MethodSig → UInt32) : MemberKind → List Own
  | .staticField => c.staticFields.map fun f => ⟨p.fields.indexOrNone f.sig, f.flags.bits, 0⟩
  | .instanceField => c.instanceFields.map fun f => ⟨p.fields.indexOrNone f.sig, f.flags.bits, 0⟩
  | .directMethod => c.directMethods.map fun m => ⟨p.methods.indexOrNone m.sig, m.flags.bits, code m.sig⟩
  | .virtualMethod => c.virtualMethods.map fun m => ⟨p.methods.indexOrNone m.sig, m.flags.bits, code m.sig⟩

/-- The class data list the members of a class. Indices ascend in each list; no two members of
both lists of fields, or of methods, have one index just if no two have one signature. -/
structure StoredClass.Lists (s : StoredClass) (c : ClassDef) (p : Pools) (code : MethodSig → UInt32) : Prop where
  hasList : ∀ kind, s.HasList kind (c.owns p code kind)
  ascending : ∀ kind, ((c.owns p code kind).map Own.index).Pairwise (· < ·)
  fields_nodup_iff : ((c.owns p code .staticField ++ c.owns p code .instanceField).map Own.index).Nodup ↔
    (c.fields.map FieldDef.sig).Nodup
  methods_nodup_iff : ((c.owns p code .directMethod ++ c.owns p code .virtualMethod).map Own.index).Nodup ↔
    (c.methods.map MethodDef.sig).Nodup

namespace StoredClass.Lists

variable {s : StoredClass} {c : ClassDef} {p : Pools} {code : MethodSig → UInt32} (h : s.Lists c p code)

include h

/-- No two members of one list have one signature. -/
theorem nodup_fields : (c.staticFields.map FieldDef.sig).Nodup ∧ (c.instanceFields.map FieldDef.sig).Nodup :=
  ⟨nodup_of_ascending p.fields.indexOrNone (fun _ => rfl) (h.ascending .staticField),
    nodup_of_ascending p.fields.indexOrNone (fun _ => rfl) (h.ascending .instanceField)⟩

theorem nodup_methods : (c.directMethods.map MethodDef.sig).Nodup ∧ (c.virtualMethods.map MethodDef.sig).Nodup :=
  ⟨nodup_of_ascending p.methods.indexOrNone (fun _ => rfl) (h.ascending .directMethod),
    nodup_of_ascending p.methods.indexOrNone (fun _ => rfl) (h.ascending .virtualMethod)⟩

end StoredClass.Lists

namespace StoredClass.Located

variable {s : StoredClass} {b : Blueprint} {t : Blueprint.DataTables} {c : ClassDef} (h : s.Located b t c)
  (hb : b.Complete)

omit h hb in
theorem map_own_rows (kind : MemberKind) :
    (b.rows t c kind).map Row.own = c.owns b.pools (offsetIn t.code) kind := by
  cases kind <;> simp only [Blueprint.rows, ClassDef.owns, List.map_map] <;> rfl

include h hb

theorem hasList (kind : MemberKind) : s.HasList kind (c.owns b.pools (offsetIn t.code) kind) := by
  have hrows := map_own_rows (b := b) (t := t) (c := c) kind
  obtain ⟨offset, form, hstart, hlist, hheld⟩ := h.exists_listStart kind
  refine ⟨by rw [h.count, ← hrows, List.length_map], ⟨offset, form, hstart, hrows ▸ hlist, hheld⟩, fun hsmall => ?_⟩
  rw [← hrows, ← Blueprint.map_own_rows_kept] at hsmall ⊢
  obtain ⟨entries, hentries, hall⟩ := h.exists_entries hb kind fun row hrow =>
    ⟨hsmall _ (List.mem_map_of_mem hrow), h.own_code_lt hrow⟩
  refine ⟨entries, hentries, List.forall₂_map_left_iff.mpr (forall₂_imp_of_mem hall fun row hrow entry _ hentry => ?_)⟩
  refine ⟨hentry.index, hentry.codeOffset.trans ?_⟩
  rcases exists_member hrow with ⟨hkind, f, -, heq⟩ | ⟨hkind, m, -, heq⟩
  · rw [heq, hkind]
    rfl
  · rw [hkind, if_pos rfl]

theorem lists_members : s.Lists c b.pools (offsetIn t.code) where
  hasList := h.hasList hb
  ascending kind := by
    obtain ⟨_, _, -, hlist, -⟩ := (h.hasList hb kind).stands
    exact hlist.ascending
  fields_nodup_iff := by
    have hindices : (c.owns b.pools (offsetIn t.code) .staticField ++ c.owns b.pools (offsetIn t.code)
        .instanceField).map Own.index = (c.fields.map FieldDef.sig).map b.pools.fields.indexOrNone := by
      simp only [ClassDef.owns, ClassDef.fields, List.map_append, List.map_map]
      rfl
    refine ⟨fun hnodup => (hindices ▸ hnodup).of_map, fun hnodup => ?_⟩
    rw [hindices, List.map_map]
    exact h.opens.nodup_fieldIndices h.mem hb hnodup
  methods_nodup_iff := by
    have hindices : (c.owns b.pools (offsetIn t.code) .directMethod ++ c.owns b.pools (offsetIn t.code)
        .virtualMethod).map Own.index = (c.methods.map MethodDef.sig).map b.pools.methods.indexOrNone := by
      simp only [ClassDef.owns, ClassDef.methods, List.map_append, List.map_map]
      rfl
    refine ⟨fun hnodup => (hindices ▸ hnodup).of_map, fun hnodup => ?_⟩
    rw [hindices, List.map_map]
    exact h.opens.nodup_methodIndices h.mem hb hnodup

end StoredClass.Located

namespace Assembly

/-- The class data of every file list the members of the classes that have been added, each method with the code item
of the last method that has its signature and a body. No two members of one list have one signature: a class
with two of these is not written. If no two methods of both lists have one signature, and methods name their own
classes, each method is listed with its own code item. Of two bodies with one signature at most one is found. -/
theorem bodies_listed {opcodes : Opcodes} {calls : List Call} {a : Assembly} (ha : history opcodes calls = a)
    {bytes : Bytes} (hwrite : (write.on a).1 = .ok bytes) (hsize : bytes.size < extentBound)
    (hown : ∀ c, Added opcodes calls c → ∀ m ∈ c.methods, m.definingClass = c.type) :
    ∃ image items code, Image.ofBytes bytes = .ok image ∧ a.blueprint.CodeItems image items code ∧
      ∀ c, Added opcodes calls c →
        (∃ index s, StoredClass.at? image index = .ok s ∧ s.view.type = .ok c.type ∧ s.Lists c.ordered a.pools code) ∧
        (c.ordered.staticFields.map FieldDef.sig).Nodup ∧ (c.ordered.instanceFields.map FieldDef.sig).Nodup ∧
        (c.ordered.directMethods.map MethodDef.sig).Nodup ∧ (c.ordered.virtualMethods.map MethodDef.sig).Nodup ∧
        ((c.methods.map MethodDef.sig).Nodup → ∀ m ∈ c.methods,
          (m.code = none → code m.sig = noOffset) ∧ (m.code.isSome → ((c.ordered, m), code m.sig) ∈ items)) ∧
        ∀ m m', m.sig = m'.sig → ((c.ordered, m), code m.sig) ∈ items → ((c.ordered, m'), code m'.sig) ∈ items →
          m = m' := by
  obtain ⟨hsealed, t, image, himage, hopens⟩ := exists_opens_of_write ha hwrite hsize
  obtain ⟨items, hitems⟩ := hopens.exists_codeItems
  refine ⟨image, items, offsetIn t.code, himage, hitems, fun c hadded => ?_⟩
  have hc : c.ordered ∈ a.blueprint.classes := ha ▸ (mem_blueprint_history opcodes calls _).mpr ⟨c, hadded, rfl⟩
  obtain ⟨i, hi⟩ := List.getElem?_of_mem hc
  obtain ⟨s, hat, rfl, hlocated⟩ := hopens.exists_located hsealed.typed hi
  have hlists := hlocated.lists_members hsealed.typed.toComplete
  refine ⟨⟨_, s, hat, hlocated.type_eq hsealed.typed.toComplete, hlists⟩, hlists.nodup_fields.1, hlists.nodup_fields.2,
    hlists.nodup_methods.1, hlists.nodup_methods.2, fun hnodup m hm => ?_, fun m m' hsig hm hm' => ?_⟩
  · have hm : m ∈ c.ordered.methods := c.perm_methods_ordered.mem_iff.mpr hm
    have hnodup : (c.ordered.methods.map MethodDef.sig).Nodup := (c.perm_methods_ordered.map _).nodup_iff.mpr hnodup
    exact hitems.of_alone (Blueprint.mem_methods hc hm) fun cm hcm hsig =>
      hsealed.typed.eq_of_sig ((definingClass_iff ha).mpr hown) hc hnodup hm hcm hsig
  · have hitem := hitems.eq_of_snd_eq hm hm' (congrArg (offsetIn t.code) hsig)
    exact congrArg (·.1.2) hitem

/-- The method of a small file is listed with its body. -/
theorem bodies_listed_small : ∃ a bytes image items code, history .standard smallCalls = a ∧
    (write.on a).1 = .ok bytes ∧ bytes.size < extentBound ∧
    (∀ c, Added .standard smallCalls c → ∀ m ∈ c.methods, m.definingClass = c.type) ∧
    Image.ofBytes bytes = .ok image ∧ a.blueprint.CodeItems image items code ∧
    ((DexFile.smallClass.ordered, DexFile.smallMethod), code DexFile.smallMethod.sig) ∈ items := by
  obtain ⟨a, bytes, ha, hclasses, -, hwrite, hsize⟩ := exists_small
  have hown := (definingClass_iff ha).mp (by rw [hclasses]; decide)
  obtain ⟨image, items, code, himage, hitems, hlisted⟩ := bodies_listed ha hwrite hsize hown
  obtain ⟨-, -, -, -, -, hcode, -⟩ := hlisted _ added_small
  exact ⟨a, bytes, image, items, code, ha, hwrite, hsize, hown, himage, hitems,
    (hcode (by decide) DexFile.smallMethod (by decide)).2 rfl⟩

end Assembly

end Dalvik
