import Dalvik.Assembly.File
import Dalvik.Proofs.Assembly.Numbering
import Dalvik.Proofs.Instruction.Slots
import Dalvik.Proofs.Value.Encode

/-!
# Files that are made from the same entries

What is written depends on the classes, on the sorted keys of the pools, and on
the indices that the numbering gives. Blueprints that are alike in these write
the same bytes, or both fail (`Blueprint.Alike.write`).
-/

namespace Dalvik

open Result (Agree Fails)

/-! ## Numberings -/

/-- The numberings yield the same indices. -/
structure ValueNumbering.Agree (n m : ValueNumbering) : Prop where
  string : ∀ s, Result.Agree (n.string s) (m.string s)
  type : ∀ d, Result.Agree (n.type d) (m.type d)
  field : ∀ f, Result.Agree (n.field f) (m.field f)
  method : ∀ k, Result.Agree (n.method k) (m.method k)
  proto : ∀ q, Result.Agree (n.proto q) (m.proto q)
  handle : ∀ h, Result.Agree (n.handle h) (m.handle h)

structure Numbering.Agree (n m : Numbering) : Prop extends ValueNumbering.Agree n.toValueNumbering m.toValueNumbering where
  callSite : ∀ c, Result.Agree (n.callSite c) (m.callSite c)

theorem Numbering.Agree.indexOf {n m : Numbering} (h : n.Agree m) (r : Reference) :
    Result.Agree (n.indexOf r) (m.indexOf r) := by
  cases r with
  | string s => exact h.string s
  | type d => exact h.type d
  | field f => exact h.field f
  | method k => exact h.method k
  | proto q => exact h.proto q
  | handle k => exact h.handle k
  | callSite c => exact h.callSite c

/-! ## Values -/

namespace Value

variable {n m : ValueNumbering}

/-- The bodies of annotations agree if the values of the elements do. -/
theorem agree_encodeBody (h : n.Agree m) {elements : Elements}
    (helements : ∀ e ∈ elements, Agree (e.2.encode n) (e.2.encode m)) (type : String) :
    Agree (encodeBody n type elements) (encodeBody m type elements) := by
  by_cases hfails : ∃ e ∈ elements, (n.string e.1).Fails
  · obtain ⟨e, he, hn⟩ := hfails
    exact .of_fails (encodeBody_fails he hn type) (encodeBody_fails he ((h.string e.1).fails hn) type)
  · obtain ⟨index, hindex⟩ : ∃ index : String → UInt32, ∀ e ∈ elements, n.string e.1 = .ok (index e.1) := by
      refine ⟨fun s => (n.string s).toOption.getD noIndex, fun e he => ?_⟩
      dsimp only
      cases hs : n.string e.1 with
      | error cause => exact absurd ⟨e, he, cause, hs⟩ hfails
      | ok index => rfl
    rw [encodeBody_eq hindex, encodeBody_eq fun e he => (h.string e.1).ok (hindex e he)]
    refine (h.type type).bind fun typeIndex => Agree.bind (.mapM fun e he => ?_) fun parts => .rfl
    exact (helements e (List.mem_mergeSort.mp he)).bind fun _ => .rfl

mutual

theorem agree_encode (h : n.Agree m) (v : Value) : Agree (v.encode n) (v.encode m) := by
  cases v with
  | proto q => exact (h.proto q).map _
  | handle k => exact (h.handle k).map _
  | string s => exact (h.string s).map _
  | type d => exact (h.type d).map _
  | field f | enum f => exact (h.field f).map _
  | method k => exact (h.method k).map _
  | array vs => exact (agree_encodeEach h vs).bind fun _ => .rfl
  | nested t es => exact (agree_encodeBody h (agree_encodeElements h es) t).bind fun _ => .rfl
  | _ => exact .rfl

theorem agree_encodeEach (h : n.Agree m) (vs : List Value) : Agree (encodeEach n vs) (encodeEach m vs) := by
  match vs with
  | [] => exact .rfl
  | v :: vs => exact (agree_encode h v).bind fun _ => (agree_encodeEach h vs).bind fun _ => .rfl

theorem agree_encodeElements (h : n.Agree m) (es : Elements) :
    ∀ e ∈ es, Agree (e.2.encode n) (e.2.encode m) := by
  match es with
  | [] => exact fun e he => nomatch he
  | e :: es => exact List.forall_mem_cons.mpr ⟨agree_encode h e.2, agree_encodeElements h es⟩

end

theorem agree_encodeArray (h : n.Agree m) (vs : List Value) : Agree (encodeArray n vs) (encodeArray m vs) :=
  (agree_encodeEach h vs).bind fun _ => .rfl

end Value

/-! ## Debug information -/

namespace DebugInfo

variable {n m : Numbering}

theorem agree_writeString? (h : n.Agree m) (s : Option String) : Agree (writeString? n s) (writeString? m s) := by
  cases s with
  | none => exact .rfl
  | some s => exact (h.string s).map _

theorem agree_writeType? (h : n.Agree m) (d : Option String) : Agree (writeType? n d) (writeType? m d) := by
  cases d with
  | none => exact .rfl
  | some d => exact (h.type d).map _

theorem agree_writeEvent (h : n.Agree m) (e : DebugEvent) : Agree (writeEvent n e) (writeEvent m e) := by
  cases e with
  | startLocal register name type signature =>
    refine (agree_writeString? h name).bind fun _ => (agree_writeType? h type).bind fun _ => ?_
    dsimp only
    split
    · exact (agree_writeString? h signature).bind fun _ => .rfl
    · exact .rfl
  | setFile name => exact (agree_writeString? h name).map _
  | _ => exact .rfl

theorem agree_writeItem (h : n.Agree m) (state : DebugState) (item : DebugItem) :
    Agree (writeItem n state item) (writeItem m state item) := by
  unfold writeItem
  split
  · exact .rfl
  · exact Agree.bind .rfl fun _ => (agree_writeEvent h _).bind fun _ => .rfl

theorem agree_writeItems (h : n.Agree m) (items : List DebugItem) (state : DebugState) :
    Agree (writeItems n state items) (writeItems m state items) := by
  induction items generalizing state with
  | nil => exact .rfl
  | cons item items ih => exact (agree_writeItem h state item).bind fun _ => (ih _).bind fun _ => .rfl

theorem agree_encode (h : n.Agree m) (names : List (Option String)) (items : List DebugItem) :
    Agree (encode n names items) (encode m names items) :=
  Agree.bind (.mapM fun name _ => agree_writeString? h name) fun _ =>
    (agree_writeItems h items _).bind fun _ => .rfl

end DebugInfo

/-! ## Code -/

/-- Instructions agree if their references do. -/
theorem Instruction.agree_mapReferences {ρ σ : Type} {f g : ReferenceKind → ρ → Result σ}
    (h : ∀ kind r, Agree (f kind r) (g kind r)) (i : Instruction ρ) :
    Agree (i.mapReferences f) (i.mapReferences g) := by
  rw [Instruction.mapReferences_eq, Instruction.mapReferences_eq]
  exact (Agree.mapM fun slot _ => h slot.1 slot.2).map i.refilled

namespace CodeItem

variable {n m : Numbering}

theorem agree_writeTyped (h : n.Agree m) (handler : Handler) : Agree (writeTyped n handler) (writeTyped m handler) := by
  unfold writeTyped
  split
  · exact (h.type _).map _
  · exact .rfl

theorem agree_writeHandlers (h : n.Agree m) (handlers : List Handler) :
    Agree (writeHandlers n handlers) (writeHandlers m handlers) := by
  unfold writeHandlers
  dsimp only
  split
  · exact .rfl
  · exact Agree.bind (.mapM fun handler _ => agree_writeTyped h handler) fun _ => .rfl

theorem agree_writeEntries (h : n.Agree m) (entries : List (List Handler)) (position : Nat) :
    Agree (writeEntries n position entries) (writeEntries m position entries) := by
  induction entries generalizing position with
  | nil => exact .rfl
  | cons handlers rest ih =>
    exact Agree.bind .rfl fun _ => (agree_writeHandlers h handlers).bind fun _ => (ih _).bind fun _ => .rfl

theorem agree_writeTries (h : n.Agree m) (units : Nat) (tries : List TryBlock) :
    Agree (writeTries n units tries) (writeTries m units tries) := by
  unfold writeTries
  split
  · exact .rfl
  · exact Agree.bind ((agree_writeEntries h _ _).bind fun _ => .rfl) fun _ => .rfl

theorem agree_encode (h : n.Agree m) (opcodes : Opcodes) (method : MethodDef) (c : Code) (debugOffset : UInt32) :
    Agree (encode n opcodes method c debugOffset) (encode m opcodes method c debugOffset) :=
  Agree.bind (.mapM fun i _ => i.agree_mapReferences fun _ r => h.indexOf r) fun _ => Agree.bind .rfl fun _ =>
    Agree.bind .rfl fun _ => (agree_writeTries h _ _).bind fun _ => .rfl

end CodeItem

/-! ## Data -/

/-- Writing yields the same draft on every draft, or fails on both sides. -/
def Draft.Write.Agree {α : Type} (w v : Draft.Write α) : Prop :=
  ∀ d, Result.Agree (w.run d) (v.run d)

namespace Draft.Write.Agree

variable {α β : Type}

theorem rfl {w : Draft.Write α} : Agree w w := fun _ => Result.Agree.rfl

theorem bind {w v : Draft.Write α} (h : Agree w v) {f g : α → Draft.Write β} (hfg : ∀ a, Agree (f a) (g a)) :
    Agree (w >>= f) (v >>= g) := fun d => (h d).bind fun (a, d) => hfg a d

theorem lift {r s : Result α} (h : Result.Agree r s) : Agree (liftM r : Draft.Write α) (liftM s) := fun _ =>
  h.bind fun _ => .rfl

end Draft.Write.Agree

namespace Blueprint

/-- The blueprints have the same classes and rank the same keys alike. -/
structure Alike (b c : Blueprint) : Prop where
  opcodes : b.opcodes = c.opcodes
  classes : b.classes = c.classes
  strings : b.pools.strings.Alike c.pools.strings
  types : b.pools.types.Alike c.pools.types
  typeLists : b.pools.typeLists.Alike c.pools.typeLists
  protos : b.pools.protos.Alike c.pools.protos
  fields : b.pools.fields.Alike c.pools.fields
  methods : b.pools.methods.Alike c.pools.methods
  handles : b.pools.handles.Alike c.pools.handles
  arrays : b.pools.arrays.Alike c.pools.arrays
  callSites : b.pools.callSites.Alike c.pools.callSites
  annotations : b.pools.annotations.Alike c.pools.annotations
  annotationSets : b.pools.annotationSets.Alike c.pools.annotationSets
  numbering : b.pools.numbering.Agree c.pools.numbering

namespace Alike

variable {b c : Blueprint} (h : b.Alike c)

include h

theorem stringItems_eq : b.stringItems = c.stringItems := by
  rw [Blueprint.stringItems, h.strings.sortedKeys_eq, ← Blueprint.stringItems]

theorem typeListItems_eq : b.typeListItems = c.typeListItems := by
  simp only [Blueprint.typeListItems, h.typeLists.sortedKeys_eq, h.types.indexOrNone_eq]

theorem arrayItems : Agree b.arrayItems c.arrayItems := by
  rw [Blueprint.arrayItems, h.arrays.sortedKeys_eq]
  exact .mapM fun values _ => (Value.agree_encodeArray h.numbering.toAgree values).bind fun _ => .rfl

theorem annotationItems : Agree b.annotationItems c.annotationItems := by
  rw [Blueprint.annotationItems, h.annotations.sortedKeys_eq]
  exact .mapM fun a _ => (Value.agree_encodeBody h.numbering.toAgree
    (Value.agree_encodeElements h.numbering.toAgree a.elements) a.type).bind fun _ => .rfl

theorem annotationSetItems (offsets : Std.HashMap AnnotationItem Nat) :
    Agree (b.annotationSetItems offsets) (c.annotationSetItems offsets) := by
  rw [Blueprint.annotationSetItems, h.annotationSets.sortedKeys_eq]
  exact .mapM fun set _ => Agree.bind (.mapM fun a _ => (h.numbering.type a.type).bind fun _ => .rfl) fun _ => .rfl

theorem methods_eq : b.methods = c.methods := by
  rw [Blueprint.methods, h.classes, ← Blueprint.methods]

theorem parameterItems_eq (sets : Members.SetOffsets) : b.parameterItems sets = c.parameterItems sets := by
  rw [Blueprint.parameterItems, h.methods_eq, ← Blueprint.parameterItems]

theorem directoryItems_eq (sets : Members.SetOffsets) (parameters : Std.HashMap MethodSig Nat) :
    b.directoryItems sets parameters = c.directoryItems sets parameters := by
  simp only [Blueprint.directoryItems, Members.directory, h.classes, h.fields.indexOrNone_eq, h.methods.indexOrNone_eq]

theorem debugItems : Agree b.debugItems c.debugItems := by
  rw [Blueprint.debugItems, h.methods_eq]
  refine Agree.bind (.mapM fun (k, m) _ => ?_) fun _ => .rfl
  show Agree (b.debugItem? k m) (c.debugItem? k m)
  unfold debugItem?
  dsimp only
  split
  · exact .rfl
  · split
    · exact .rfl
    · exact ((DebugInfo.agree_encode h.numbering _ _).within _).bind fun _ => .rfl

theorem codeItems (debugOffsets : Std.HashMap MethodSig Nat) :
    Agree (b.codeItems debugOffsets) (c.codeItems debugOffsets) := by
  rw [Blueprint.codeItems, Blueprint.codeItems, h.methods_eq]
  refine Agree.bind (.mapM fun (k, m) _ => ?_) fun _ => .rfl
  show Agree (b.codeItem? debugOffsets k m) (c.codeItem? debugOffsets k m)
  unfold codeItem?
  split
  · exact .rfl
  · rw [h.opcodes]
    exact ((CodeItem.agree_encode h.numbering ..).within _).bind fun _ => .rfl

theorem classDataItems_eq (codeOffsets : Std.HashMap MethodSig Nat) :
    b.classDataItems codeOffsets = c.classDataItems codeOffsets := by
  simp only [Blueprint.classDataItems, Members.writeClassData, Members.writeFields, Members.writeMethods, h.classes,
    h.fields.indexOrNone_eq, h.methods.indexOrNone_eq]

theorem hiddenApiItems_eq : b.hiddenApiItems = c.hiddenApiItems := by
  rw [Blueprint.hiddenApiItems, h.classes, ← Blueprint.hiddenApiItems]

theorem writeData : Draft.Write.Agree b.writeData c.writeData := by
  unfold Blueprint.writeData
  rw [h.stringItems_eq, h.typeListItems_eq, h.hiddenApiItems_eq]
  simp only [h.parameterItems_eq, h.directoryItems_eq, h.classDataItems_eq]
  refine .bind .rfl fun strings => .bind .rfl fun _ => .bind .rfl fun typeLists => ?_
  refine .bind (.lift h.arrayItems) fun _ => .bind .rfl fun arrays => ?_
  refine .bind (.lift h.annotationItems) fun _ => .bind .rfl fun annotations => ?_
  refine .bind .rfl fun _ => .bind (.lift (h.annotationSetItems annotations)) fun _ => .bind .rfl fun sets => ?_
  refine .bind .rfl fun parameters => .bind .rfl fun directories => ?_
  refine .bind (.lift h.debugItems) fun _ => .bind .rfl fun debug => ?_
  refine .bind (.lift (h.codeItems debug)) fun _ => .bind .rfl fun code => ?_
  exact .rfl

/-! ## Identifiers and the whole file -/

theorem idSections_eq : b.idSections = c.idSections := by
  simp only [Blueprint.idSections, h.strings.size_eq, h.types.size_eq, h.protos.size_eq, h.fields.size_eq,
    h.methods.size_eq, h.classes, h.callSites.size_eq, h.handles.size_eq]

theorem dataOffset_eq : b.dataOffset = c.dataOffset := by
  rw [Blueprint.dataOffset, h.idSections_eq, ← Blueprint.dataOffset]

theorem withMap_eq (data : Draft) : b.withMap data = c.withMap data := by
  rw [Blueprint.withMap, Blueprint.leadingSections, h.idSections_eq, ← Blueprint.leadingSections, ← Blueprint.withMap]

theorem header_eq (fileSize dataSize mapOffset : Nat) :
    b.header fileSize dataSize mapOffset = c.header fileSize dataSize mapOffset := by
  simp only [Blueprint.header, Blueprint.sectionOf, h.idSections_eq, h.opcodes, h.dataOffset_eq]

theorem writeIds_eq (offsets : DataOffsets) : b.writeIds offsets = c.writeIds offsets := by
  have hmember : b.memberIndex = c.memberIndex := by
    funext m
    cases m with
    | field f => exact h.fields.indexOrNone_eq f
    | method m => exact h.methods.indexOrNone_eq m
  have hproto : b.protoId offsets = c.protoId offsets := by
    funext q
    simp only [protoId, h.strings.indexOrNone_eq, h.types.indexOrNone_eq]
  have hfield : b.fieldId = c.fieldId := by
    funext f
    simp only [fieldId, h.strings.indexOrNone_eq, h.types.indexOrNone_eq]
  have hmethod : b.methodId = c.methodId := by
    funext m
    simp only [methodId, h.strings.indexOrNone_eq, h.types.indexOrNone_eq, h.protos.indexOrNone_eq]
  have hclass : b.classDefItem offsets = c.classDefItem offsets := by
    funext k
    simp only [classDefItem, funext h.types.indexOrNone_eq, funext h.strings.indexOrNone_eq]
  have hhandle : b.handleId = c.handleId := by
    funext k
    simp only [handleId, hmember]
  simp only [writeIds, hproto, hfield, hmethod, hclass, hhandle, h.classes, h.strings.sortedKeys_eq,
    h.strings.indexOrNone_eq, h.types.sortedKeys_eq, h.protos.sortedKeys_eq, h.fields.sortedKeys_eq,
    h.methods.sortedKeys_eq, h.callSites.sortedKeys_eq, h.handles.sortedKeys_eq]

/-- Blueprints that are alike write the same bytes, or both fail. -/
theorem write : Agree b.write c.write := by
  unfold Blueprint.write
  rw [h.dataOffset_eq]
  refine (h.writeData _).bind fun (offsets, data) => ?_
  simp only [h.withMap_eq, h.writeIds_eq, h.header_eq]
  exact .rfl

end Alike

end Blueprint

end Dalvik
