import Dalvik.Proofs.Assembly.ClassOrder
import Dalvik.Proofs.Class.Settled

/-!
# Whatever is looked up is found

Making the entries of a class and writing it are two walks through the same
definition. `Numbering.Indexes` says that the first has made an entry which the
second asks for, and `Result.Found` that no lookup is what makes an outcome fail.
The steps of the writing are `Found` wherever what they name is indexed, and so is
the file of any history (`write_found`).
-/

namespace Dalvik

/-- Whether a failure says that a pool does not have a key or an id. -/
def Cause.isMissing : Cause → Bool
  | .notInPool .. | .handleUnknown .. => true
  | _ => false

namespace Result

variable {α β : Type}

/-- If the outcome is a failure, it is not because something was not found. -/
def Found (r : Result α) : Prop :=
  ∀ e, r = .error e → e.cause.isMissing = false

namespace Found

theorem ok (a : α) : Found (.ok a) :=
  fun _ h => nomatch h

theorem fail {cause : Cause} (h : cause.isMissing = false) : Found (Result.fail cause : Result α) :=
  fun _ he => by cases he; exact h

theorem of_exists {r : Result α} (h : ∃ a, r = .ok a) : Found r := by
  obtain ⟨a, rfl⟩ := h
  exact ok a

theorem bind {r : Result α} (h : Found r) {f : α → Result β} (hf : ∀ a, Found (f a)) : Found (r >>= f) := by
  cases r with
  | error e => exact fun e' he => by cases he; exact h e rfl
  | ok a => exact hf a

/-- What comes after a failure does not matter. -/
theorem fail_bind {cause : Cause} (h : cause.isMissing = false) (f : α → Result β) :
    Found (Result.fail cause >>= f) :=
  fun _ he => by cases he; exact h

theorem map {r : Result α} (h : Found r) (f : α → β) : Found (r.map f) := by
  cases r with
  | error e => exact fun e' he => by cases he; exact h e rfl
  | ok a => exact ok (f a)

theorem within {r : Result α} (h : Found r) (context : Context) : Found (r.within context) := by
  cases r with
  | error e => exact fun e' he => by cases he; exact h e rfl
  | ok a => exact ok a

theorem mapM {l : List α} {f : α → Result β} (h : ∀ a ∈ l, Found (f a)) : Found (l.mapM f) := by
  induction l with
  | nil => exact ok []
  | cons a l ih =>
    rw [List.mapM_cons]
    exact (h a List.mem_cons_self).bind fun _ => (ih fun a ha => h a (List.mem_cons_of_mem _ ha)).bind fun _ => ok _

theorem ite {p : Prop} [Decidable p] {r s : Result α} (hr : Found r) (hs : Found s) : Found (if p then r else s) := by
  split
  · exact hr
  · exact hs

end Found

end Result

open Result

theorem found_narrow (what : String) (index : Nat) : Found (narrow what index) :=
  .ite (.fail rfl) (.ok _)

/-! ## Numbering -/

/-- The numbering has an index for an entry, if it is of a kind that references
name. -/
def Numbering.Indexes (n : Numbering) : Entry → Prop
  | .string s => ∃ index, n.string s = .ok index
  | .type d => ∃ index, n.type d = .ok index
  | .proto q => ∃ index, n.proto q = .ok index
  | .field f => ∃ index, n.field f = .ok index
  | .method m => ∃ index, n.method m = .ok index
  | .handle h => ∃ index, n.handle h = .ok index
  | .callSite c => ∃ index, n.callSite c = .ok index
  | .typeList _ | .array _ | .annotationItem _ | .annotationSet _ => True

/-- What is in finalized pools is found there. -/
theorem Pools.Ranked.indexes {p : Pools} (hr : p.Ranked) (hc : p.Closed) {e : Entry} (he : p.Has e) :
    p.numbering.Indexes e := by
  have hn := hr.numbers hc
  cases e with
  | string s => exact ⟨_, (hn.string s).1 he⟩
  | type d => exact ⟨_, (hn.type d).1 he⟩
  | proto q => exact ⟨_, (hn.proto q).1 he⟩
  | field f => exact ⟨_, (hn.field f).1 he⟩
  | method m => exact ⟨_, (hn.method m).1 he⟩
  | handle h => exact ⟨_, (hn.handle h).1 he⟩
  | callSite c => exact ⟨_, (hn.callSite c).1 he⟩
  | _ => trivial

theorem Entry.type_mem_ofType (d : String) : .type d ∈ ofType d :=
  List.mem_cons_of_mem _ (List.mem_singleton_self _)

/-- The last entry of a reference is that of the reference itself. -/
theorem Numbering.exists_indexOf {n : Numbering} {r : Reference} (h : ∀ e ∈ Entry.ofReference r, n.Indexes e) :
    ∃ index, n.indexOf r = .ok index := by
  cases r with
  | string s => exact h (.string s) (List.mem_singleton_self _)
  | type d => exact h (.type d) (Entry.type_mem_ofType d)
  | proto q => exact h (.proto q) List.mem_concat_self
  | field f => exact h (.field f) List.mem_concat_self
  | method m => exact h (.method m) List.mem_concat_self
  | handle k => exact h (.handle k) List.mem_concat_self
  | callSite c => exact h (.callSite c) List.mem_concat_self

/-! ## Values -/

namespace Value

variable {n : Numbering}

theorem exists_writeIndex (tag : UInt8) {index : Result UInt32} (h : ∃ i, index = .ok i) :
    ∃ form, writeIndex tag index = .ok form := by
  obtain ⟨i, rfl⟩ := h
  exact ⟨_, rfl⟩

/-- The body of an annotation whose type, names and values are all indexed. -/
theorem exists_encodeBody {type : String} {elements : Elements} (htype : n.Indexes (.type type))
    (h : ∀ e ∈ elements, n.Indexes (.string e.1) ∧ ∃ form, e.2.encode n.toValueNumbering = .ok form) :
    ∃ form, encodeBody n.toValueNumbering type elements = .ok form := by
  obtain ⟨index, hindex⟩ : ∃ index : String → UInt32, ∀ e ∈ elements, n.string e.1 = .ok (index e.1) := by
    refine ⟨fun s => (n.string s).toOption.getD noIndex, fun e he => ?_⟩
    obtain ⟨index, hindex⟩ := (h e he).1
    dsimp only
    rw [hindex]
    rfl
  obtain ⟨typeIndex, htypeIndex⟩ := htype
  obtain ⟨parts, hparts⟩ : ∃ parts, (elements.mergeSort fun a b => index a.1 ≤ index b.1).mapM (fun e => do
      return Write.uleb128 (index e.1) ++ (← e.2.encode n.toValueNumbering)) = .ok parts :=
    exists_mapM fun e he => by
      obtain ⟨form, hform⟩ := (h e (List.mem_mergeSort.mp he)).2
      exact ⟨_, by rw [hform]; rfl⟩
  exact ⟨_, by rw [encodeBody_eq hindex, htypeIndex, ok_bind, hparts]; rfl⟩

mutual

/-- A value can be written if what it refers to is indexed. -/
theorem exists_encode (v : Value) (h : ∀ e ∈ Entry.ofValue v, n.Indexes e) :
    ∃ form, v.encode n.toValueNumbering = .ok form := by
  cases v with
  | proto q => exact exists_writeIndex _ (h (.proto q) List.mem_concat_self)
  | handle k => exact exists_writeIndex _ (h (.handle k) List.mem_concat_self)
  | string s => exact exists_writeIndex _ (h (.string s) (List.mem_singleton_self _))
  | type d => exact exists_writeIndex _ (h (.type d) (Entry.type_mem_ofType d))
  | field f | enum f => exact exists_writeIndex _ (h (.field f) List.mem_concat_self)
  | method m => exact exists_writeIndex _ (h (.method m) List.mem_concat_self)
  | array vs =>
    obtain ⟨body, hbody⟩ := exists_encodeEach vs h
    exact ⟨_, by rw [encode, hbody]; rfl⟩
  | nested t es =>
    obtain ⟨body, hbody⟩ := exists_encodeBody (h _ (List.mem_append_left _ (Entry.type_mem_ofType t)))
      (indexes_of_ofElements es fun e he => h e (List.mem_append_right _ he))
    exact ⟨_, by rw [encode]; unfold encodeBody at hbody; rw [hbody]; rfl⟩
  | _ => exact ⟨_, rfl⟩

theorem exists_encodeEach (vs : List Value) (h : ∀ e ∈ Entry.ofValues vs, n.Indexes e) :
    ∃ form, encodeEach n.toValueNumbering vs = .ok form := by
  match vs with
  | [] => exact ⟨_, rfl⟩
  | v :: vs =>
    obtain ⟨first, hfirst⟩ := exists_encode v fun e he => h e (List.mem_append_left _ he)
    obtain ⟨rest, hrest⟩ := exists_encodeEach vs fun e he => h e (List.mem_append_right _ he)
    exact ⟨_, by rw [encodeEach, hfirst, ok_bind, hrest]; rfl⟩

theorem indexes_of_ofElements (es : Elements) (h : ∀ e ∈ Entry.ofElements es, n.Indexes e) :
    ∀ e ∈ es, n.Indexes (.string e.1) ∧ ∃ form, e.2.encode n.toValueNumbering = .ok form := by
  match es with
  | [] => exact fun e he => nomatch he
  | (name, v) :: es =>
    obtain ⟨hname, hrest⟩ := List.forall_mem_cons.mp h
    exact List.forall_mem_cons.mpr
      ⟨⟨hname, exists_encode v fun e he => hrest e (List.mem_append_left _ he)⟩,
        indexes_of_ofElements es fun e he => hrest e (List.mem_append_right _ he)⟩

end

theorem exists_encodeArray {vs : List Value} (h : ∀ e ∈ Entry.ofValues vs, n.Indexes e) :
    ∃ form, encodeArray n.toValueNumbering vs = .ok form := by
  obtain ⟨body, hbody⟩ := exists_encodeEach vs h
  exact ⟨_, by rw [encodeArray, hbody]; rfl⟩

end Value

/-! ## Debug information -/

namespace DebugInfo

variable {n : Numbering}

theorem exists_writeString? {s : Option String} (h : ∀ e ∈ Entry.ofString? s, n.Indexes e) :
    ∃ form, writeString? n s = .ok form := by
  cases s with
  | none => exact ⟨_, rfl⟩
  | some s =>
    obtain ⟨index, hindex⟩ := h (.string s) (List.mem_singleton_self _)
    exact ⟨_, by rw [writeString?, hindex]; rfl⟩

theorem exists_writeType? {d : Option String} (h : ∀ e ∈ Entry.ofType? d, n.Indexes e) :
    ∃ form, writeType? n d = .ok form := by
  cases d with
  | none => exact ⟨_, rfl⟩
  | some d =>
    obtain ⟨index, hindex⟩ := h (.type d) (List.mem_append_left _ (Entry.type_mem_ofType d))
    exact ⟨_, by rw [writeType?, hindex]; rfl⟩

/-- An event is written if what it names is indexed. -/
theorem exists_writeEvent {event : DebugEvent} (h : ∀ e ∈ Entry.ofDebugEvent event, n.Indexes e) :
    ∃ form, writeEvent n event = .ok form := by
  cases event with
  | startLocal register name type signature =>
    simp only [Entry.ofDebugEvent, List.mem_append] at h
    obtain ⟨nameForm, hname⟩ := exists_writeString? fun e he => h e (.inl (.inl he))
    obtain ⟨typeForm, htype⟩ := exists_writeType? fun e he => h e (.inr he)
    obtain ⟨signatureForm, hsignature⟩ := exists_writeString? fun e he => h e (.inl (.inr he))
    rw [writeEvent, hname, Result.ok_bind, htype, Result.ok_bind, hsignature]
    cases signature <;> exact ⟨_, rfl⟩
  | setFile name =>
    obtain ⟨form, hform⟩ := exists_writeString? h
    exact ⟨_, by rw [writeEvent, hform]; rfl⟩
  | _ => exact ⟨_, rfl⟩

theorem found_writeItem {item : DebugItem} (h : ∀ e ∈ Entry.ofDebugEvent item.event, n.Indexes e)
    (state : DebugState) : Found (writeItem n state item) := by
  unfold writeItem
  split
  · exact .ite (.fail rfl) (.ok _)
  · exact Found.bind (.ite (.fail rfl) (.ite (.ok _) (.ok _))) fun _ =>
      (Found.of_exists (exists_writeEvent h)).bind fun _ => .ok _

theorem found_writeItems {items : List DebugItem}
    (h : ∀ item ∈ items, ∀ e ∈ Entry.ofDebugEvent item.event, n.Indexes e) (state : DebugState) :
    Found (writeItems n state items) := by
  induction items generalizing state with
  | nil => exact .ok _
  | cons item items ih =>
    rw [List.forall_mem_cons] at h
    exact (found_writeItem h.1 state).bind fun _ => (ih h.2 _).bind fun _ => .ok _

theorem found_encode {names : List (Option String)} {items : List DebugItem}
    (hnames : ∀ name ∈ names, ∀ e ∈ Entry.ofString? name, n.Indexes e)
    (hitems : ∀ item ∈ items, ∀ e ∈ Entry.ofDebugEvent item.event, n.Indexes e) : Found (encode n names items) :=
  (Found.mapM fun name hname => .of_exists (exists_writeString? (hnames name hname))).bind fun _ =>
    (found_writeItems hitems _).bind fun _ => .ok _

end DebugInfo

/-! ## Code -/

namespace Operands

variable {ρ : Type}

theorem found_checkNibble (r : UInt16) : Found (checkNibble r) :=
  .ite (.fail rfl) (.ok _)

theorem found_checkByte (r : UInt16) : Found (checkByte r) :=
  .ite (.fail rfl) (.ok _)

theorem found_checkList (registers : List UInt16) : Found (checkList registers) := by
  refine .ite (.fail rfl) ?_
  induction registers with
  | nil => exact .ok _
  | cons r registers ih => exact (found_checkNibble r).bind fun _ => ih

theorem found_checkRange (start count : UInt16) : Found (checkRange start count) :=
  .ite (.fail rfl) (.ite (.fail rfl) (.ok _))

theorem found_checkLiteral (bits : Nat) (literal : Int32) : Found (checkLiteral bits literal) :=
  .ite (.ok _) (.fail rfl)

theorem found_checkOffset (bits : Nat) (offset : Int) (name : String) : Found (checkOffset bits offset name) :=
  .ite (.ok _) (.fail rfl)

theorem found_checkHigh (bits : Nat) (literal : Int) : Found (checkHigh bits literal) :=
  .ite (.fail rfl) (.ok _)

theorem found_checkElements (width : UInt16) (elements : List Int64) : Found (checkElements width elements) := by
  refine .ite ?_ (.fail rfl)
  split
  · exact .fail rfl
  · exact .ok _

theorem found_verificationBits (kind : ReferenceKind) : Found kind.verificationBits := by
  cases kind <;> first | exact .ok _ | exact .fail rfl

/-- The checks of operands look nothing up. -/
theorem found_check (operands : Operands ρ) : Found operands.check := by
  cases operands with
  | f10t | f20t => exact found_checkOffset _ _ _
  | f10x | f30t | f32x => exact .ok _
  | f11n => exact (found_checkNibble _).bind fun _ => .ite (.ok _) (.fail rfl)
  | f11x | f21c | f22x | f31c | f31i | f31t | f51l => exact found_checkByte _
  | f12x | f22c | f22cs => exact (found_checkNibble _).bind fun _ => found_checkNibble _
  | f20bc => exact .ite (.fail rfl) ((found_verificationBits _).map _)
  | f21ih | f21lh => exact (found_checkByte _).bind fun _ => found_checkHigh _ _
  | f21s => exact (found_checkByte _).bind fun _ => found_checkLiteral _ _
  | f21t => exact (found_checkByte _).bind fun _ => found_checkOffset _ _ _
  | f22b => exact (found_checkByte _).bind fun _ => (found_checkByte _).bind fun _ => found_checkLiteral _ _
  | f22s => exact (found_checkNibble _).bind fun _ => (found_checkNibble _).bind fun _ => found_checkLiteral _ _
  | f22t => exact (found_checkNibble _).bind fun _ => (found_checkNibble _).bind fun _ => found_checkOffset _ _ _
  | f23x => exact (found_checkByte _).bind fun _ => (found_checkByte _).bind fun _ => found_checkByte _
  | f35c | f35mi | f35ms | f45cc => exact found_checkList _
  | f3rc | f3rmi | f3rms | f4rcc => exact found_checkRange _ _
  | packedSwitch => exact .ite (.fail rfl) (.ok _)
  | sparseSwitch => exact .ite (.fail rfl) (.ite (.ok _) (.fail rfl))
  | arrayData => exact found_checkElements _ _

end Operands

theorem Piece.found_writeAll (pieces : List Piece) : Found (writeAll pieces).2 := by
  induction pieces with
  | nil => exact .ok _
  | cons piece pieces ih =>
    have hpiece : Found piece.write := by
      cases piece with
      | plain bytes => exact .ok _
      | index reference => exact .ite (.fail rfl) (.ok _)
    unfold writeAll
    cases hwrite : piece.write with
    | error e => exact fun e' he => by cases he; exact hpiece e hwrite
    | ok bytes => exact ih

namespace Instruction

variable {n : Numbering}

theorem found_encode (o : Opcodes) (i : Instruction UInt32) : Found (i.encode o).2 := by
  have hcheck : Found i.check := .ite (.fail rfl) (i.operands.found_check.within _)
  unfold encode
  split
  · exact fun e he => by cases he; exact hcheck _ ‹_›
  · split
    · exact .fail rfl
    · exact Piece.found_writeAll _

theorem found_encodeFrom (o : Opcodes) (address : Nat) (code : List (Instruction UInt32)) :
    Found (encodeFrom o address code).2 := by
  induction code generalizing address with
  | nil => exact .ok _
  | cons i code ih =>
    have hi := found_encode o i
    unfold encodeFrom
    split
    · exact .fail rfl
    · cases hencode : i.encode o with
      | mk bytes outcome =>
        rw [hencode] at hi
        cases outcome with
        | error e => exact fun e' he => by cases he; exact hi e rfl
        | ok u => exact ih _

/-- The references of an instruction are replaced by their indices if they are
indexed. -/
theorem exists_mapReferences {i : Instruction Reference}
    (h : ∀ r ∈ i.references, ∀ e ∈ Entry.ofReference r, n.Indexes e) :
    ∃ j, (i.mapReferences fun _ r => n.indexOf r) = .ok j := by
  obtain ⟨indices, hindices⟩ := Result.exists_mapM fun slot (hslot : slot ∈ i.slots) =>
    n.exists_indexOf (h slot.2 (List.mem_map_of_mem hslot))
  exact ⟨_, mapReferences_eq_ok_iff.mpr ⟨indices, Result.forall₂_of_mapM hindices, rfl⟩⟩

end Instruction

namespace CodeItem

variable {n : Numbering}

theorem exists_writeTyped {handler : Handler} (h : ∀ e ∈ Entry.ofType? handler.type, n.Indexes e) :
    ∃ form, writeTyped n handler = .ok form := by
  obtain ⟨type, address⟩ := handler
  cases type with
  | none => exact ⟨_, rfl⟩
  | some d =>
    obtain ⟨index, hindex⟩ := h (.type d) (List.mem_append_left _ (Entry.type_mem_ofType d))
    exact ⟨_, by rw [writeTyped]; dsimp only; rw [hindex]; rfl⟩

theorem found_writeHandlers {handlers : List Handler}
    (h : ∀ handler ∈ handlers, ∀ e ∈ Entry.ofType? handler.type, n.Indexes e) : Found (writeHandlers n handlers) := by
  unfold writeHandlers
  dsimp only
  split
  · exact .fail_bind rfl _
  · exact (Found.mapM fun handler hhandler =>
      .of_exists (exists_writeTyped (h handler (List.mem_filter.mp hhandler).1))).bind fun _ => .ok _

theorem found_writeEntries {entries : List (List Handler)}
    (h : ∀ handlers ∈ entries, ∀ handler ∈ handlers, ∀ e ∈ Entry.ofType? handler.type, n.Indexes e) (position : Nat) :
    Found (writeEntries n position entries) := by
  induction entries generalizing position with
  | nil => exact .ok _
  | cons handlers entries ih =>
    rw [List.forall_mem_cons] at h
    exact (found_narrow _ _).bind fun _ => (found_writeHandlers h.1).bind fun _ => (ih h.2 _).bind fun _ => .ok _

theorem found_writeTries {tries : List TryBlock} (units : Nat)
    (h : ∀ t ∈ tries, ∀ handler ∈ t.handlers, ∀ e ∈ Entry.ofType? handler.type, n.Indexes e) :
    Found (writeTries n units tries) := by
  refine .ite (.ok _) ?_
  refine (Found.bind (found_writeEntries (fun handlers hhandlers => ?_) _) fun _ => .ok _).bind fun _ => .ok _
  obtain ⟨t, ht, rfl⟩ := List.mem_map.mp (List.mem_eraseDups.mp hhandlers)
  exact h t ht

/-- A code item looks up what its code names. -/
theorem found_encode {c : Code} (h : ∀ e ∈ Entry.ofCode c, n.Indexes e) (opcodes : Opcodes) (m : MethodDef)
    (debugOffset : UInt32) : Found (encode n opcodes m c debugOffset) := by
  simp only [Entry.ofCode, List.mem_append, List.mem_flatMap] at h
  refine (Found.mapM fun i hi => .of_exists (Instruction.exists_mapReferences fun r hr e he =>
    h e (.inl (.inl ⟨i, hi, r, hr, he⟩)))).bind fun indexed => ?_
  refine (Instruction.found_encodeFrom opcodes 0 indexed).bind fun units => (found_narrow _ _).bind fun _ => ?_
  exact (found_writeTries units fun t ht handler hhandler e he =>
    h e (.inl (.inr ⟨t, ht, handler, hhandler, he⟩))).bind fun _ => .ok _

end CodeItem

/-! ## Members -/

namespace Members

theorem found_deltas {outOfOrder : Cause} (h : outOfOrder.isMissing = false) (previous : Option UInt32)
    (indices : List UInt32) : Found (deltas outOfOrder previous indices) := by
  induction indices generalizing previous with
  | nil => exact .ok _
  | cons index indices ih =>
    have hrest (delta : UInt32) : Found (do return delta :: (← deltas outOfOrder (some index) indices)) :=
      (ih (some index)).bind fun _ => .ok _
    cases previous with
    | none => exact hrest index
    | some previous => exact .ite (.fail_bind h _) (hrest (index - previous))

theorem found_writeFields (p : Pools) (type : String) (fields : List FieldDef) : Found (writeFields p type fields) :=
  (found_deltas rfl _ _).bind fun _ => .ok _

theorem found_writeMethods (p : Pools) (codeOffsets : Std.HashMap MethodSig Nat) (type : String)
    (methods : List MethodDef) : Found (writeMethods p codeOffsets type methods) :=
  (found_deltas rfl _ _).bind fun _ => .ok _

theorem found_writeClassData (p : Pools) (codeOffsets : Std.HashMap MethodSig Nat) (c : ClassDef) :
    Found (writeClassData p codeOffsets c) :=
  (found_writeFields p _ _).bind fun _ => (found_writeFields p _ _).bind fun _ =>
    (found_writeMethods p _ _ _).bind fun _ => (found_writeMethods p _ _ _).bind fun _ => .ok _

end Members

/-! ## Data -/

/-- Whatever the draft, no lookup is what makes the writing fail. -/
def Draft.Write.Found {α : Type} (w : Draft.Write α) : Prop :=
  ∀ d, Result.Found (w.run d)

namespace Draft.Write.Found

variable {α β : Type}

theorem bind {w : Draft.Write α} (h : Found w) {f : α → Draft.Write β} (hf : ∀ a, Found (f a)) : Found (w >>= f) :=
  fun d => (h d).bind fun (a, d) => hf a d

theorem lift {r : Result α} (h : Result.Found r) : Found (liftM r : Draft.Write α) :=
  fun _ => h.bind fun _ => .ok _

theorem writeSection {κ : Type} [BEq κ] [Hashable κ] (type : ItemType) (alignment : Nat)
    (items : List (κ × List UInt8)) : Found (Draft.writeSection type alignment items) :=
  fun _ => .ok _

theorem align (alignment : Nat) : Found (Draft.align alignment) :=
  fun _ => .ok _

end Draft.Write.Found

namespace Blueprint

namespace Complete

variable {b : Blueprint} (h : b.Complete)

include h

theorem indexes {e : Entry} (he : b.pools.Has e) : b.pools.numbering.Indexes e :=
  h.ranked.indexes h.closed he

omit h in
theorem found_typeListItems : Found b.typeListItems :=
  .mapM fun _ _ => (Found.mapM fun _ _ => (found_narrow _ _).map _).bind fun _ => .ok _

theorem found_arrayItems : Found b.arrayItems :=
  .mapM fun values hvalues => (Found.of_exists (Value.exists_encodeArray fun _ he =>
    h.indexes (h.closed.support (e := .array values) (h.ranked.arrays.mem_sortedKeys.mp hvalues) he))).bind fun _ => .ok _

theorem found_annotationItems : Found b.annotationItems :=
  .mapM fun a ha => by
    have hsupport : ∀ e ∈ Entry.ofType a.type ++ Entry.ofElements a.elements, b.pools.numbering.Indexes e :=
      fun e he => h.indexes (h.closed.support (e := .annotationItem a) (h.ranked.annotations.mem_sortedKeys.mp ha) he)
    exact (Found.of_exists (Value.exists_encodeBody
      (hsupport _ (List.mem_append_left _ (Entry.type_mem_ofType a.type)))
      (Value.indexes_of_ofElements a.elements fun e he => hsupport e (List.mem_append_right _ he)))).bind fun _ => .ok _

theorem found_annotationSetItems (offsets : Std.HashMap AnnotationItem Nat) : Found (b.annotationSetItems offsets) := by
  refine .mapM fun set hset => Found.bind (.mapM fun a ha => ?_) fun _ => .ok _
  have hitem : b.pools.Has (.annotationItem a) :=
    h.closed.support (e := .annotationSet set) (h.ranked.annotationSets.mem_sortedKeys.mp hset) (List.mem_map_of_mem ha)
  have htype : b.pools.Has (.type a.type) :=
    h.closed.support hitem (List.mem_append_left _ (Entry.type_mem_ofType a.type))
  exact (Found.of_exists (h.indexes htype)).bind fun _ => .ok _

theorem found_debugItem? {c : ClassDef} (hc : c ∈ b.classes) {m : MethodDef} (hm : m ∈ c.methods) :
    Found (b.debugItem? c m) := by
  have hmethod : ∀ e ∈ Entry.ofMethodDef m, b.pools.numbering.Indexes e := fun e he =>
    h.indexes (h.has_methodDef hc hm he)
  simp only [Entry.ofMethodDef, List.mem_append, List.mem_flatMap, Option.mem_toList] at hmethod
  unfold debugItem?
  dsimp only
  split
  · exact .ok _
  · rename_i code hcode
    refine .ite (.ok _) (((DebugInfo.found_encode (fun name hname e he => ?_) fun item hitem e he => ?_).within _).bind
      fun _ => .ok _)
    · obtain ⟨p, hp, rfl⟩ := List.mem_map.mp hname
      exact hmethod e (.inl (.inl (.inl (.inr ⟨p, hp, he⟩))))
    · exact hmethod e (.inl (.inl (.inr ⟨code, hcode, List.mem_append_right _ (List.mem_flatMap.mpr ⟨item, hitem, he⟩)⟩)))

theorem found_codeItem? {c : ClassDef} (hc : c ∈ b.classes) {m : MethodDef} (hm : m ∈ c.methods)
    (debugOffsets : Std.HashMap MethodSig Nat) : Found (b.codeItem? debugOffsets c m) := by
  unfold codeItem?
  split
  · exact .ok _
  · rename_i code hcode
    refine ((CodeItem.found_encode (fun e he => h.indexes (h.has_methodDef hc hm ?_)) _ _ _).within _).bind fun _ => .ok _
    simp only [Entry.ofMethodDef, List.mem_append, List.mem_flatMap, Option.mem_toList]
    exact .inl (.inl (.inr ⟨code, hcode, he⟩))

omit h in
theorem mem_methods {c : ClassDef} {m : MethodDef} : (c, m) ∈ b.methods ↔ c ∈ b.classes ∧ m ∈ c.methods := by
  simp [methods]

theorem found_debugItems : Found b.debugItems :=
  Found.bind (.mapM fun _ hcm => h.found_debugItem? (mem_methods.mp hcm).1 (mem_methods.mp hcm).2) fun _ => .ok _

theorem found_codeItems (debugOffsets : Std.HashMap MethodSig Nat) : Found (b.codeItems debugOffsets) :=
  Found.bind (.mapM fun _ hcm => h.found_codeItem? (mem_methods.mp hcm).1 (mem_methods.mp hcm).2 debugOffsets)
    fun _ => .ok _

omit h in
theorem found_classDataItems (codeOffsets : Std.HashMap MethodSig Nat) : Found (b.classDataItems codeOffsets) :=
  .mapM fun c _ => (Members.found_writeClassData b.pools codeOffsets c).bind fun _ => .ok _

theorem found_writeData : Draft.Write.Found b.writeData := by
  refine .bind (.writeSection _ _ _) fun _ => .bind (.lift found_typeListItems) fun _ => ?_
  refine .bind (.writeSection _ _ _) fun _ => .bind (.lift h.found_arrayItems) fun _ => ?_
  refine .bind (.writeSection _ _ _) fun _ => .bind (.lift h.found_annotationItems) fun _ => ?_
  refine .bind (.writeSection _ _ _) fun offsets => .bind (.align 4) fun _ => ?_
  refine .bind (.lift (h.found_annotationSetItems offsets)) fun _ => ?_
  refine .bind (.writeSection _ _ _) fun _ => .bind (.writeSection _ _ _) fun _ => ?_
  refine .bind (.writeSection _ _ _) fun _ => .bind (.lift h.found_debugItems) fun _ => ?_
  refine .bind (.writeSection _ _ _) fun debug => .bind (.lift (h.found_codeItems debug)) fun _ => ?_
  refine .bind (.writeSection _ _ _) fun code => .bind (.lift (found_classDataItems code)) fun _ => ?_
  exact .bind (.writeSection _ _ _) fun _ _ => .ok _

omit h in
theorem found_writeIds (offsets : DataOffsets) : Found (b.writeIds offsets) := by
  have hfield (f : FieldSig) : Found (b.fieldId f) :=
    (found_narrow _ _).bind fun _ => (found_narrow _ _).bind fun _ => .ok _
  have hmethod (m : MethodSig) : Found (b.methodId m) :=
    (found_narrow _ _).bind fun _ => (found_narrow _ _).bind fun _ => .ok _
  have hhandle (k : MethodHandle) : Found (b.handleId k) := (found_narrow _ _).bind fun _ => .ok _
  exact (Found.mapM fun f _ => hfield f).bind fun _ => (Found.mapM fun m _ => hmethod m).bind fun _ =>
    (Found.mapM fun k _ => hhandle k).bind fun _ => .ok _

theorem found_write : Found b.write := by
  refine (h.found_writeData _).bind fun _ => (found_writeIds _).bind fun _ => ?_
  split
  · exact .fail_bind rfl _
  · exact .ok _

end Complete

end Blueprint

namespace Assembly

/-- A finalized assembly makes a complete file of what has been gathered. -/
theorem Gathered.complete {a : Assembly} (h : a.Gathered) : a.finalized.blueprint.Complete where
  ranked := h.growing.ranked_finalized
  closed := h.closed.finalized
  has c hc e he := (Pools.has_finalized e).mpr
    (h.classes c (Array.mem_toList_iff.mp ((ClassOrder.arrange_perm _).mem_iff.mp hc)) e he)

/-- Whatever was added to an assembly, once it is finalized all that its classes
name is in its pools, and if it cannot be written, this is not because a key or an
id was not found there. -/
theorem write_found (opcodes : Opcodes) (requests : List Request) :
    ∃ a, finalize.on (gather opcodes requests) = (.ok (), a) ∧ a.blueprint.Complete ∧
      ∀ e, (write.on a).1 = .error e → e.cause.isMissing = false := by
  have h := gathered_gather opcodes requests
  refine ⟨_, on_finalize h.growing, h.complete, ?_⟩
  rw [on_write (a := (gather opcodes requests).finalized) h.growing.ranked_finalized]
  exact h.complete.found_write

end Assembly

end Dalvik
