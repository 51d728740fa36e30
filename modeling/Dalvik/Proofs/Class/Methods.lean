import Dalvik.Image.Class
import Dalvik.Proofs.Class.Directory
import Dalvik.Proofs.Class.Kept

/-!
# Bodies and parameters of methods are read as they were written

The code item of a method and its debug information stand where the tables of a
file say, and so do the annotations of its parameters.
`Blueprint.Opens.exists_code` and `Blueprint.Opens.parameterLists_found` say what is
read there.
-/

namespace Dalvik

/-- Offsets of sets of annotations are read as they were written. -/
theorem Image.annotationSetRefs_eq {image : Image} (hsize : image.bytes.size < extentBound) {offset : Nat}
    (hne : offset ≠ 0) {offsets : List UInt32} (hoffsets : ∀ o ∈ offsets, o.toNat < extentBound)
    (hheld : image.bytes.Holds offset (Layout.write (SizedList.ofItems (offsets.map OffsetEntry.mk)))) :
    image.annotationSetRefs offset = .ok (offsets.map UInt32.toNat) := by
  have hform : Layout.write (SizedList.ofItems (offsets.map OffsetEntry.mk)) =
      Write.uint (UInt32.ofNat (offsets.map OffsetEntry.mk).length) ++
        Layout.writeItems (offsets.map OffsetEntry.mk) := rfl
  have hitems : Layout.writeItems (offsets.map OffsetEntry.mk) = (offsets.map Write.uint).flatten := by
    rw [Layout.writeItems, List.flatMap_map, List.flatMap_def]
    rfl
  rw [hform, hitems, List.length_map] at hheld
  have hle := hheld.right.le_size
  rw [← List.flatMap_def, length_flatMap_of_forall fun o _ => Write.length_uint o] at hle
  have hcount : (UInt32.ofNat offsets.length).toNat = offsets.length :=
    UInt32.toNat_ofNat_of_lt' (Nat.lt_trans (Nat.lt_of_le_of_lt (by omega) hsize) (by decide))
  have hread : List.Forall₂ (Read.Yields Read.smallUint) (offsets.map Write.uint) offsets :=
    List.forall₂_map_left_iff.mpr (List.forall₂_same.mpr fun o ho => Read.yields_smallUint (hoffsets o ho))
  rw [annotationSetRefs, if_neg hne]
  refine Read.Yields.at? ?_ hheld
  refine (Read.yields_smallUint (by omega)).bind ?_
  dsimp only
  rw [hcount]
  exact (Read.Yields.times hread).bind_pure _

/-- What is read at the offset of the lists of annotations of parameters. -/
def Image.ParameterLists (image : Image) (offset : Nat) (lists : List (List AnnotationItem)) : Prop :=
  (do
    (← image.annotationSetRefs offset).mapM fun offset =>
      AnnotationView.collect ((image.annotationSet offset).map StoredAnnotationItem.view)) = Except.ok lists

/-- The lists of annotations that a file gives back for the parameters of a method: one for
each parameter, or none at all if no parameter has annotations. -/
def MethodDef.keptLists (m : MethodDef) : List (List AnnotationItem) :=
  if Members.hasParameterAnnotations m then m.parameters.map fun p => AnnotationItem.kept p.annotations else []

theorem MethodDef.keptLists_getD {m : MethodDef} {i : Nat} {p : Parameter} (hp : m.parameters[i]? = some p) :
    m.keptLists[i]?.getD [] = AnnotationItem.kept p.annotations := by
  rw [keptLists]
  split
  · rw [List.getElem?_map, hp]
    rfl
  · rename_i hnone
    have hempty := List.any_eq_false.mp (Bool.not_eq_true _ ▸ hnone) p (List.mem_of_getElem? hp)
    rw [Bool.not_eq_true, Bool.not_eq_false', List.isEmpty_iff] at hempty
    rw [hempty, AnnotationItem.kept_nil]
    rfl

namespace Blueprint

open Members Read

variable {b : Blueprint} {t : DataTables} {image : Image}

theorem fst_of_codeItem? {debug : Std.HashMap MethodSig Nat} {cm : ClassDef × MethodDef}
    {item : MethodSig × List UInt8} (h : b.codeItem? debug cm.1 cm.2 = .ok (some item)) : item.1 = cm.2.sig := by
  unfold codeItem? at h
  split at h
  · cases h
  · obtain ⟨form, -, h⟩ := Result.bind_eq_ok h
    cases h
    rfl

theorem fst_of_debugItem? {cm : ClassDef × MethodDef} {item : MethodSig × List UInt8}
    (h : b.debugItem? cm.1 cm.2 = .ok (some item)) : item.1 = cm.2.sig := by
  unfold debugItem? at h
  dsimp only at h
  split at h
  · cases h
  · split at h
    · cases h
    · obtain ⟨form, -, h⟩ := Result.bind_eq_ok h
      cases h
      rfl

theorem Settled.eq_of_sig (hs : b.Settled) {cm cm' : ClassDef × MethodDef} (hcm : cm ∈ b.methods) (hcm' : cm' ∈ b.methods)
    (hsig : cm'.2.sig = cm.2.sig) : cm' = cm :=
  List.inj_on_of_nodup_map hs.nodup_methods hcm' hcm hsig

theorem mem_methods {c : ClassDef} (hc : c ∈ b.classes) {m : MethodDef} (hm : m ∈ c.methods) : (c, m) ∈ b.methods :=
  List.mem_flatMap.mpr ⟨c, hc, List.mem_map_of_mem hm⟩

namespace Opens

variable (h : b.Opens t image)

include h

/-! ## What the tables have -/

/-- What the table has for a signature is the debug information of a body of a method with
this signature. -/
theorem offsetIn_debug_eq_or (sig : MethodSig) : offsetIn t.debug sig = noOffset ∨ ∃ c m code form,
    (c, m) ∈ b.methods ∧ m.sig = sig ∧ m.code = some code ∧
    DebugInfo.encode b.pools.numbering (m.parameters.map (·.name)) code.debug = .ok form ∧
    image.bytes.Holds (offsetIn t.debug sig).toNat form ∧ offsetIn t.debug sig ≠ noOffset ∧
    (offsetIn t.debug sig).toNat < extentBound := by
  obtain ⟨items, hitems, hstands⟩ := h.data.debug
  obtain ⟨items?, hmade, hitems⟩ := Result.bind_eq_ok hitems
  cases hitems
  rcases hstands.offsetIn_eq_or h.size_lt sig with hnone | ⟨form, hitem, hfound⟩
  · exact .inl hnone
  · obtain ⟨item?, hmem, rfl⟩ := List.mem_filterMap.mp hitem
    obtain ⟨⟨c, m⟩, hcm, hitem⟩ := Result.exists_of_mem_mapM hmade hmem
    replace hitem : b.debugItem? c m = .ok (some (sig, form)) := hitem
    unfold debugItem? at hitem
    dsimp only at hitem
    split at hitem
    · cases hitem
    · rename_i code hcode
      split at hitem
      · cases hitem
      · obtain ⟨form, hform, hitem⟩ := Result.bind_eq_ok hitem
        cases hitem
        exact .inr ⟨c, m, code, form, hcm, rfl, hcode, Result.within_eq_ok hform, hfound⟩

/-- What the table has for a signature is the code item of a body of a method with this
signature. -/
theorem offsetIn_code_eq_or (sig : MethodSig) : offsetIn t.code sig = noOffset ∨ ∃ c m code form,
    (c, m) ∈ b.methods ∧ m.sig = sig ∧ m.code = some code ∧
    CodeItem.encode b.pools.numbering b.opcodes m code (offsetIn t.debug sig) = .ok form ∧
    image.bytes.Holds (offsetIn t.code sig).toNat form ∧ offsetIn t.code sig ≠ noOffset ∧
    (offsetIn t.code sig).toNat < extentBound := by
  obtain ⟨items, hitems, hstands⟩ := h.data.code
  obtain ⟨items?, hmade, hitems⟩ := Result.bind_eq_ok hitems
  cases hitems
  rcases hstands.offsetIn_eq_or h.size_lt sig with hnone | ⟨form, hitem, hfound⟩
  · exact .inl hnone
  · obtain ⟨item?, hmem, rfl⟩ := List.mem_filterMap.mp hitem
    obtain ⟨⟨c, m⟩, hcm, hitem⟩ := Result.exists_of_mem_mapM hmade hmem
    replace hitem : b.codeItem? t.debug c m = .ok (some (sig, form)) := hitem
    unfold codeItem? at hitem
    split at hitem
    · cases hitem
    · rename_i code hcode
      obtain ⟨form, hform, hitem⟩ := Result.bind_eq_ok hitem
      cases hitem
      exact .inr ⟨c, m, code, form, hcm, rfl, hcode, Result.within_eq_ok hform, hfound⟩

theorem offsetIn_debug_lt (sig : MethodSig) : (offsetIn t.debug sig).toNat < extentBound := by
  rcases h.offsetIn_debug_eq_or sig with heq | ⟨_, _, _, _, -, -, -, -, -, -, hlt⟩
  · rw [heq]
    decide
  · exact hlt

theorem offsetIn_code_lt (sig : MethodSig) : (offsetIn t.code sig).toNat < extentBound := by
  rcases h.offsetIn_code_eq_or sig with heq | ⟨_, _, _, _, -, -, -, -, -, -, hlt⟩
  · rw [heq]
    decide
  · exact hlt

section complete

variable (hb : b.Complete)

include hb

/-- The name and the prototype of a method are read by its index. -/
theorem storedMethod_eq {sig : MethodSig} (hsig : b.pools.Has (.method sig)) {stored : StoredMethod}
    (himage : stored.image = image) (hindex : stored.index = b.pools.methods.indexOrNone sig) :
    stored.name = .ok sig.name ∧ stored.parameterTypes = .ok sig.parameters ∧ stored.returnType = .ok sig.returnType := by
  subst himage
  obtain ⟨offset, id, hoffset, hheld, hlt, -, hproto, hname⟩ := h.exists_methodId hb.ranked hb.closed hsig
  obtain ⟨protoOffset, hprotoOffset, hprotoHeld, -, hreturnLt, hparametersLt, hparameters, hreturn⟩ :=
    h.exists_protoId hb.ranked hb.closed (hb.closed.proto_of_method hsig)
  have hsize := h.size_lt
  have hbound : extentBound < bitBound 32 := by decide
  have hle := hheld.le_size
  have hprotoLe := hprotoHeld.le_size
  have hidOffset : stored.idOffset = .ok offset := by
    rw [StoredMethod.idOffset, hindex, hoffset]
    exact congrArg Except.ok (Nat.mod_eq_of_lt (by omega))
  have hprotoAt : stored.protoOffset = .ok protoOffset := by
    have hread : stored.image.readAt ushort (offset + 2) = .ok id.proto :=
      (yields_ushort id.proto).at? hheld.left.right
    rw [StoredMethod.protoOffset, hidOffset, Result.ok_bind, hread, Result.ok_bind, hproto, hprotoOffset]
    exact congrArg Except.ok (Nat.mod_eq_of_lt (by omega))
  have hnameAt : stored.image.readAt smallUint (offset + 4) = .ok id.name := (yields_smallUint hlt).at? hheld.right
  have hreturnAt : stored.image.readAt smallUint (protoOffset + 4) = .ok _ :=
    (yields_smallUint hreturnLt).at? hprotoHeld.left.right
  have hparametersAt : stored.image.readAt smallUint (protoOffset + 8) = .ok _ :=
    (yields_smallUint hparametersLt).at? hprotoHeld.right
  refine ⟨?_, ?_, ?_⟩
  · rw [StoredMethod.name, hidOffset, Result.ok_bind, hnameAt, Result.ok_bind, hname]
  · rw [StoredMethod.parameterTypes, hprotoAt, Result.ok_bind, hparametersAt, Result.ok_bind, hparameters]
    rfl
  · rw [StoredMethod.returnType, hprotoAt, Result.ok_bind, hreturnAt, Result.ok_bind, hreturn]
    rfl

/-- The image finds each reference behind its index. -/
theorem resolver_undoes : image.resolver.Undoes b.pools.numbering where
  values := h.undoes hb.ranked hb.closed
  callSite hi := by
    obtain ⟨hsite, rfl⟩ := (hb.ranked.numbers hb.closed).callSite.of_eq_ok hi
    exact h.callSite_eq hb.ranked hb.closed hsite

/-- Where the table leads, a code item is found that is that of a body of a method with the
signature. -/
theorem exists_codeAt (hcovers : image.opcodes.Covers b.opcodes) (hsound : ∀ c ∈ b.classes, ∀ m ∈ c.methods,
      ∀ code ∈ m.code, ∀ i ∈ code.instructions, i.Sound) {sig : MethodSig} (hne : offsetIn t.code sig ≠ noOffset) :
    ∃ c m code stored, (c, m) ∈ b.methods ∧ m.sig = sig ∧ m.code = some code ∧
      StoredCode.at? image (offsetIn t.code sig).toNat = .ok stored ∧ stored.image = image ∧
      CodeItem.Shows stored b.pools.numbering code (offsetIn t.debug sig).toNat := by
  obtain hnone | ⟨c, m, code, form, hcm, hsig, hcode, hform, hheld, -, -⟩ := h.offsetIn_code_eq_or sig
  · exact absurd hnone hne
  · obtain ⟨c', hc, hm⟩ := List.mem_flatMap.mp hcm
    obtain ⟨m', hm, heq⟩ := List.mem_map.mp hm
    cases heq
    obtain ⟨stored, hat, himage, hshows⟩ := CodeItem.exists_at? (h.resolver_undoes hb) hcovers h.size_lt
      (hsound c hc m hm code hcode) (h.offsetIn_debug_lt sig) hform hheld
    exact ⟨c, m, code, stored, hcm, hsig, hcode, hat, himage, hshows⟩

/-- The lists of annotations of the parameters of a method are read as they were
written. -/
theorem parameterLists_eq {c : ClassDef} (hc : c ∈ b.classes) {m : MethodDef} (hm : m ∈ c.methods) {offset : Nat}
    (hne : offset ≠ 0) (hheld : image.bytes.Holds offset (Layout.write (parameterSets t.sets m))) :
    image.ParameterLists offset (m.parameters.map fun p => AnnotationItem.kept p.annotations) := by
  have hoffsets : ∀ o ∈ m.parameters.map fun p => setOffset t.sets p.annotations, o.toNat < extentBound := by
    intro o ho
    obtain ⟨p, hp, rfl⟩ := List.mem_map.mp ho
    exact h.setOffset_lt hb.ranked fun e he => hb.has_parameterAnnotations hc hm hp he
  have hform : image.bytes.Holds offset (Layout.write (SizedList.ofItems
      ((m.parameters.map fun p => setOffset t.sets p.annotations).map OffsetEntry.mk))) := by
    rwa [List.map_map]
  rw [Image.ParameterLists, Image.annotationSetRefs_eq h.size_lt hne hoffsets hform, Result.ok_bind]
  refine Result.mapM_of_forall₂ ?_
  rw [List.map_map, List.forall₂_map_left_iff, List.forall₂_map_right_iff, List.forall₂_same]
  exact fun p hp => h.annotationSet_eq hb.ranked hb.closed fun e he => hb.has_parameterAnnotations hc hm hp he

/-- What is found by the signature of a method are the lists of annotations of its
parameters, if no other method has the signature. -/
theorem parameterLists_found {c : ClassDef} (hc : c ∈ b.classes) {m : MethodDef} (hm : m ∈ c.methods)
    (halone : ∀ cm ∈ b.methods, cm.2.sig = m.sig → cm.2 = m) :
    (offsetIn t.parameters m.sig = noOffset ↔ hasParameterAnnotations m = false) ∧
      image.ParameterLists (offsetIn t.parameters m.sig).toNat m.keptLists := by
  rw [MethodDef.keptLists]
  cases hany : hasParameterAnnotations m with
  | false =>
    have hkey : m.sig ∉ (b.parameterItems t.sets).map Prod.fst := fun hmem => by
      rw [keys_parameterItems] at hmem
      obtain ⟨cm, hcm, hsig⟩ := List.mem_map.mp hmem
      obtain ⟨hcm, hannotated⟩ := List.mem_filter.mp hcm
      rw [halone cm hcm hsig, hany] at hannotated
      cases hannotated
    rw [h.data.parameters.offsetIn_of_notMem hkey]
    exact ⟨iff_of_true rfl rfl, rfl⟩
  | true =>
    have hitem : (m.sig, Layout.write (parameterSets t.sets m)) ∈ b.parameterItems t.sets :=
      List.mem_map.mpr ⟨(c, m), List.mem_filter.mpr ⟨mem_methods hc hm, hany⟩, rfl⟩
    obtain ⟨hheld, hne, -⟩ := h.data.parameters.holds_of_forall h.size_lt hitem fun other hother => by
      obtain ⟨cm, hcm, heq⟩ := List.mem_map.mp hother
      obtain ⟨hsig, rfl⟩ := Prod.mk.inj heq
      rw [halone cm (List.mem_filter.mp hcm).1 hsig]
    exact ⟨iff_of_false hne (by decide), h.parameterLists_eq hb hc hm (fun hzero => hne (UInt32.toNat_inj.mp hzero)) hheld⟩

end complete

/-! ## Bodies -/

section told

variable {c : ClassDef} (hs : b.Settled) (hc : c ∈ b.classes) {m : MethodDef} (hm : m ∈ c.methods)

include hs hc hm

/-- The debug information of a body, if there is any. -/
theorem exists_debug {code : Code} (hcode : m.code = some code) :
    (offsetIn t.debug m.sig = noOffset ∧ code.debug = [] ∧ ∀ p ∈ m.parameters, p.name = none) ∨
      ∃ form, DebugInfo.encode b.pools.numbering (m.parameters.map (·.name)) code.debug = .ok form ∧
        image.bytes.Holds (offsetIn t.debug m.sig).toNat form ∧ offsetIn t.debug m.sig ≠ noOffset ∧
        (offsetIn t.debug m.sig).toNat < extentBound := by
  obtain ⟨item?, hitem, hnone, hsome⟩ := h.data.debug.exists_item? h.size_lt (fun _ _ => fst_of_debugItem?)
    hs.nodup_methods (mem_methods hc hm)
  rw [debugItem?, hcode] at hitem
  dsimp only at hitem
  split at hitem
  · rename_i hempty
    rw [Bool.and_eq_true, List.isEmpty_iff, List.all_eq_true] at hempty
    refine .inl ⟨hnone (Except.ok.inj hitem).symm, hempty.1, fun p hp => ?_⟩
    exact Option.isNone_iff_eq_none.mp (hempty.2 _ (List.mem_map_of_mem hp))
  · obtain ⟨form, hform, hitem⟩ := Result.bind_eq_ok hitem
    obtain ⟨hheld, hne, hlt⟩ := hsome _ (Except.ok.inj hitem).symm
    exact .inr ⟨form, Result.within_eq_ok hform, hheld, hne, hlt⟩

/-- A method without a body has no code item. -/
theorem offsetIn_code_eq (hcode : m.code = none) : offsetIn t.code m.sig = noOffset := by
  obtain ⟨item?, hitem, hnone, -⟩ := h.data.code.exists_item? h.size_lt (fun _ _ => fst_of_codeItem?)
    hs.nodup_methods (mem_methods hc hm)
  rw [codeItem?, hcode] at hitem
  exact hnone (Except.ok.inj hitem).symm

/-- The code item of a body is found by the signature of its method. -/
theorem exists_body (hcovers : image.opcodes.Covers b.opcodes) {code : Code} (hcode : m.code = some code)
    (hsound : ∀ i ∈ code.instructions, i.Sound) : (offsetIn t.code m.sig).toNat ≠ 0 ∧ ∃ stored : StoredCode,
      StoredCode.at? image (offsetIn t.code m.sig).toNat = .ok stored ∧ stored.image = image ∧
      CodeItem.Shows stored b.pools.numbering code (offsetIn t.debug m.sig).toNat := by
  obtain ⟨item?, hitem, -, hsome⟩ := h.data.code.exists_item? h.size_lt (fun _ _ => fst_of_codeItem?)
    hs.nodup_methods (mem_methods hc hm)
  rw [codeItem?, hcode] at hitem
  obtain ⟨form, hform, hitem⟩ := Result.bind_eq_ok hitem
  obtain ⟨hheld, hne, -⟩ := hsome _ (Except.ok.inj hitem).symm
  exact ⟨fun hzero => hne (UInt32.toNat_inj.mp hzero), CodeItem.exists_at? (h.resolver_undoes hs.toComplete) hcovers
    h.size_lt hsound (h.offsetIn_debug_lt m.sig) (Result.within_eq_ok hform) hheld⟩

/-- The names of the parameters are read with a body. -/
theorem exists_names {code : Code} (hcode : m.code = some code) {stored : StoredCode} (himage : stored.image = image)
    (hshows : CodeItem.Shows stored b.pools.numbering code (offsetIn t.debug m.sig).toNat) :
    ∃ names : List (Option String), stored.parameterNames = .ok names ∧
      ∀ (i : Nat) (p : Parameter), m.parameters[i]? = some p → names[i]?.join = p.name := by
  subst himage
  rcases h.exists_debug hs hc hm hcode with ⟨heq, -, hnames⟩ | ⟨debug, hdebug, hheld, hne, -⟩
  · have hzero : stored.debugOffset = 0 := by rw [hshows.debugOffset_eq, heq]; rfl
    refine ⟨[], by rw [StoredCode.parameterNames, if_pos hzero], fun i p hp => ?_⟩
    rw [hnames p (List.mem_of_getElem? hp)]
    rfl
  · rw [← hshows.debugOffset_eq] at hheld
    have hzero : stored.debugOffset ≠ 0 := by
      rw [hshows.debugOffset_eq]
      exact fun hzero => hne (UInt32.toNat_inj.mp hzero)
    refine ⟨m.parameters.map (·.name), ?_, fun i p hp => ?_⟩
    · exact DebugInfo.parameterNames_eq (h.resolver_undoes hs.toComplete).values.agrees hdebug hheld
        (DebugInfo.length_names_lt hdebug hheld h.size_lt) hzero
    · rw [List.getElem?_map, hp]
      rfl

/-- The debug information of a body is read as it was written. -/
theorem debugItems_eq {code : Code} (hcode : m.code = some code) {stored : StoredCode} (himage : stored.image = image)
    (hshows : CodeItem.Shows stored b.pools.numbering code (offsetIn t.debug m.sig).toNat)
    (hdebug : DebugItem.Readable 0 code.debug) (hline : (DebugInfo.firstLine code.debug).toNat < extentBound) :
    stored.debugItems = code.debug.map .ok := by
  subst himage
  rcases h.exists_debug hs hc hm hcode with ⟨heq, hempty, -⟩ | ⟨form, hform, hheld, hne, -⟩
  · have hzero : stored.debugOffset = 0 := by rw [hshows.debugOffset_eq, heq]; rfl
    rw [StoredCode.debugItems, if_pos hzero, hempty]
    rfl
  · rw [← hshows.debugOffset_eq] at hheld
    have hzero : stored.debugOffset ≠ 0 := by
      rw [hshows.debugOffset_eq]
      exact fun hzero => hne (UInt32.toNat_inj.mp hzero)
    exact DebugInfo.debugItems_eq (h.resolver_undoes hs.toComplete).values.agrees hform hheld
      (DebugInfo.length_names_lt hform hheld h.size_lt) hzero hline hdebug

/-- A body is read as it was written, and the names of the parameters with it. -/
theorem exists_code (hcovers : image.opcodes.Covers b.opcodes) {code : Code} (hcode : m.code = some code)
    (hreadable : code.Readable) : (offsetIn t.code m.sig).toNat ≠ 0 ∧ ∃ (stored : StoredCode) (names : List (Option String)),
      StoredCode.at? image (offsetIn t.code m.sig).toNat = .ok stored ∧ stored.view.toCode = .ok code.kept ∧
      stored.parameterNames = .ok names ∧ ∀ (i : Nat) (p : Parameter), m.parameters[i]? = some p → names[i]?.join = p.name := by
  obtain ⟨hne, stored, hat, himage, hshows⟩ :=
    h.exists_body hs hc hm hcovers hcode fun i hi => (hreadable.instructions i hi).sound
  obtain ⟨names, hnames, hnameOf⟩ := h.exists_names hs hc hm hcode himage hshows
  have hdebug := h.debugItems_eq hs hc hm hcode himage hshows hreadable.debug hreadable.line_lt
  have htries : stored.tries = .ok (code.tries.map TryBlock.inOrder) := by
    subst himage
    exact hshows.tries_eq (h.resolver_undoes hs.toComplete) hreadable.tries h.size_lt
  have hinstructions : (code.instructions.map fun i => i.arranged.extended) = code.kept.instructions :=
    List.map_congr_left fun i hi => by rw [(hreadable.instructions i hi).arranged_eq]
  refine ⟨hne, stored, names, hat, ?_, hnames, hnameOf⟩
  rw [CodeView.toCode]
  dsimp only [StoredCode.view]
  rw [hshows.instructions, Result.collect_map_ok, Result.ok_bind, htries, Result.ok_bind, hdebug,
    Result.collect_map_ok, hshows.registers, hinstructions]
  rfl

end told

end Opens

end Blueprint

end Dalvik
