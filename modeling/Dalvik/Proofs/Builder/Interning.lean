import Dalvik.Proofs.Builder.Making

/-!
# Interning makes entries

Interning a reference, a constant or a set of annotations makes the entries that are
listed for it, in their order, and the handle that comes of it stands for the thing.
-/

namespace Dalvik.Builder

variable {p q : Pools}

/-! ## Parts of references -/

theorem makes_string (s : String) : Makes Always (internString s) [.string s] fun p h => h.Names p.strings s :=
  (Table.strings.makes s s).imp (fun _ _ => rfl) fun _ _ => id

theorem makes_type (d : String) : Makes Always (internType d) (Entry.ofType d) fun p h => h.Names p.types d :=
  (makes_string d).bind fun name => Table.types.makes ⟨name⟩ d

theorem makes_typeList (ts : List String) :
    Makes Always (internTypeList ts) (Entry.ofTypeList ts) fun p k => TypeListCode p k ts := by
  unfold internTypeList Entry.ofTypeList
  cases hempty : ts.isEmpty with
  | true => exact .pure fun _ _ => not_not.mpr (List.isEmpty_iff.mp hempty)
  | false =>
    have hne : ts ≠ [] := by simpa using hempty
    have htypes := Makes.mapM (R := fun p (h : Handle TypeKey) d => h.Names p.types d)
      (fun _ _ _ _ h => h.types.names) ts fun d _ => makes_type d
    refine htypes.bind fun handles => ?_
    exact ((Table.typeLists.makes ⟨handles⟩ ts).imp (fun _ h => ⟨hne, h⟩) fun _ _ => id).map fun _ _ h => ⟨hne, h⟩

theorem makes_proto (r : Prototype) :
    Makes Always (internProto r) (Entry.ofProto r) fun p h => h.Names p.protos r := by
  have hentries : Entry.ofProto r =
      [.string r.shorty] ++ (Entry.ofType r.returnType ++ (Entry.ofTypeList r.parameters ++ [.proto r])) := by
    simp [Entry.ofProto]
  rw [hentries]
  refine (makes_string r.shorty).bind fun shorty => ?_
  refine ((makes_type r.returnType).keeping fun _ _ h => h.strings.names).bind fun returnType => ?_
  refine ((makes_typeList r.parameters).keeping fun _ _ h hk =>
    ⟨h.types.names hk.1, h.strings.names hk.2⟩).bind fun parameters => ?_
  exact (Table.protos.makes ⟨shorty, returnType, parameters⟩ r).imp
    (fun _ h => { parameters := h.1, returnType := h.2.1, shorty := h.2.2 }) fun _ _ => id

theorem makes_field (f : FieldSig) :
    Makes Always (internField f) (Entry.ofField f) fun p h => h.Names p.fields f := by
  have hentries : Entry.ofField f =
      Entry.ofType f.definingClass ++ ([.string f.name] ++ (Entry.ofType f.type ++ [.field f])) := by
    simp [Entry.ofField]
  rw [hentries]
  refine (makes_type f.definingClass).bind fun definingClass => ?_
  refine ((makes_string f.name).keeping fun _ _ h => h.types.names).bind fun name => ?_
  refine ((makes_type f.type).keeping fun _ _ h hk => ⟨h.strings.names hk.1, h.types.names hk.2⟩).bind fun type => ?_
  exact (Table.fields.makes ⟨definingClass, name, type⟩ f).imp
    (fun _ h => { type := h.1, name := h.2.1, definingClass := h.2.2 }) fun _ _ => id

theorem makes_method (m : MethodSig) :
    Makes Always (internMethod m) (Entry.ofMethod m) fun p h => h.Names p.methods m := by
  have hentries : Entry.ofMethod m =
      Entry.ofType m.definingClass ++ ([.string m.name] ++ (Entry.ofProto m.proto ++ [.method m])) := by
    simp [Entry.ofMethod]
  rw [hentries]
  refine (makes_type m.definingClass).bind fun definingClass => ?_
  refine ((makes_string m.name).keeping fun _ _ h => h.types.names).bind fun name => ?_
  refine ((makes_proto m.proto).keeping fun _ _ h hk => ⟨h.strings.names hk.1, h.types.names hk.2⟩).bind fun proto => ?_
  exact (Table.methods.makes ⟨definingClass, name, proto⟩ m).imp
    (fun _ h => { proto := h.1, name := h.2.1, definingClass := h.2.2 }) fun _ _ => id

theorem makes_member (m : HandleMember) :
    Makes Always (internMember m) (Entry.ofMember m) fun p k => k.Codes p m := by
  cases m with
  | field f => exact (makes_field f).map fun _ _ h => h
  | method m => exact (makes_method m).map fun _ _ h => h

theorem makes_handle (k : MethodHandle) :
    Makes Always (internHandle k) (Entry.ofHandle k) fun p h => h.Names p.handles k :=
  (makes_member k.member).bind fun member =>
    (Table.handles.makes ⟨k.kind, member⟩ k).imp (fun _ h => ⟨rfl, h⟩) fun _ _ => id

/-! ## Constants -/

mutual

theorem makes_value (v : Value) : Makes Always (internValue v) (Entry.ofValue v) fun _ _ => True := by
  cases v with
  | proto r => exact (makes_proto r).discard
  | handle k => exact (makes_handle k).discard
  | string s => exact (makes_string s).discard
  | type d => exact (makes_type d).discard
  | field f | enum f => exact (makes_field f).discard
  | method m => exact (makes_method m).discard
  | array vs => exact makes_values vs
  | nested t es => exact (makes_type t).discard.bind fun _ => (makes_elements es).anyway
  | _ => exact .pure fun _ _ => trivial

theorem makes_values (vs : List Value) : Makes Always (internValues vs) (Entry.ofValues vs) fun _ _ => True := by
  match vs with
  | [] => exact .pure fun _ _ => trivial
  | v :: vs => exact (makes_value v).bind fun _ => (makes_values vs).anyway

theorem makes_elements (es : List (String × Value)) :
    Makes Always (internElements es) (Entry.ofElements es) fun _ _ => True := by
  match es with
  | [] => exact .pure fun _ _ => trivial
  | (name, v) :: es =>
    have hentries : Entry.ofElements ((name, v) :: es) = [.string name] ++ (Entry.ofValue v ++ Entry.ofElements es) :=
      rfl
    rw [hentries]
    refine (makes_string name).discard.bind fun _ => ?_
    exact (makes_value v).anyway.bind fun _ => (makes_elements es).anyway

end

theorem makes_array (vs : List Value) :
    Makes Always (internArray vs) (Entry.ofArray vs) fun p h => h.Names p.arrays vs :=
  (makes_values vs).bind fun _ => (Table.arrays.makes vs vs).imp (fun _ _ => rfl) fun _ _ => id

theorem makes_callSite (c : CallSite) :
    Makes Always (internCallSite c) (Entry.ofCallSite c) fun p h => h.Names p.callSites c :=
  (makes_array c.values).bind fun array => Table.callSites.makes ⟨array⟩ c

/-! ## Annotations -/

theorem makes_annotationItem (a : AnnotationItem) :
    Makes Always (internAnnotationItem a) (Entry.ofAnnotationItem a) fun p h => h.Names p.annotations a.arranged := by
  have hentries : Entry.ofAnnotationItem a =
      Entry.ofType a.arranged.type ++ (Entry.ofElements a.arranged.elements ++ [.annotationItem a.arranged]) := by
    simp [Entry.ofAnnotationItem]
  rw [hentries]
  refine (makes_type a.arranged.type).discard.bind fun _ => ?_
  refine (makes_elements a.arranged.elements).anyway.bind fun _ => ?_
  exact (Table.annotations.makes a.arranged a.arranged).imp (fun _ _ => rfl) fun _ _ => id

section handlesInOrder

variable {κ : Type} {handles : List (Handle κ)}

theorem mem_handlesInOrder {h : Handle κ} : h ∈ handlesInOrder handles ↔ h ∈ handles := by
  rw [handlesInOrder, mem_eraseReps, List.mem_mergeSort]

theorem handlesInOrder_pairwise (handles : List (Handle κ)) :
    (handlesInOrder handles).Pairwise fun h k => compare h k = .lt :=
  eraseReps_pairwise (mergeSort_pairwise_isLE compare handles)

end handlesInOrder

/-- The handles of annotations, in order, stand for the set of the annotations. -/
theorem annotationSetKey_codes {handles : List (Handle AnnotationItem)} {annotations : List AnnotationItem}
    (hne : annotations ≠ [])
    (h : List.Forall₂ (fun h a => h.Names p.annotations a.arranged) handles annotations) :
    AnnotationSetKey.Codes p ⟨handlesInOrder handles⟩ (AnnotationItem.setOf annotations) where
  proper := ⟨AnnotationItem.setOf_ne_nil hne, AnnotationItem.setOf_pairwise annotations⟩
  ascending := handlesInOrder_pairwise handles
  named k hk := by
    obtain ⟨a, ha, hnames⟩ := exists_mem_right h (mem_handlesInOrder.mp hk)
    exact ⟨a.arranged, AnnotationItem.mem_setOf.mpr (List.mem_map_of_mem ha), hnames⟩
  complete a ha := by
    obtain ⟨b, hb, rfl⟩ := List.mem_map.mp (AnnotationItem.mem_setOf.mp ha)
    obtain ⟨k, hk, hnames⟩ := exists_mem_left h hb
    exact ⟨k, mem_handlesInOrder.mpr hk, hnames⟩

/-- A set of annotations has a handle unless it is empty. -/
def AnnotationSetCode (p : Pools) : Option (Handle AnnotationSetKey) → List AnnotationItem → Prop :=
  Code? (· ≠ []) fun h as => h.Names p.annotationSets (AnnotationItem.setOf as)

theorem AnnotationSetCode.mono (h : p.Extends q) {k : Option (Handle AnnotationSetKey)} {as : List AnnotationItem}
    (hk : AnnotationSetCode p k as) : AnnotationSetCode q k as :=
  Code?.imp (fun _ _ hx => h.annotationSets.names hx) hk

theorem makes_annotationSet (as : List AnnotationItem) :
    Makes Always (internAnnotationSet as) (Entry.ofAnnotationSet as) fun p k => AnnotationSetCode p k as := by
  unfold internAnnotationSet Entry.ofAnnotationSet
  cases hempty : as.isEmpty with
  | true => exact .pure fun _ _ => not_not.mpr (List.isEmpty_iff.mp hempty)
  | false =>
    have hne : as ≠ [] := by simpa using hempty
    have hannotations := Makes.mapM (R := fun p (h : Handle AnnotationItem) a => h.Names p.annotations a.arranged)
      (fun _ _ _ _ h => h.annotations.names) as fun a _ => makes_annotationItem a
    refine hannotations.bind fun handles => ?_
    exact ((Table.annotationSets.makes ⟨handlesInOrder handles⟩ (AnnotationItem.setOf as)).imp
      (fun _ h => annotationSetKey_codes hne h) fun _ _ => id).map fun _ _ h => ⟨hne, h⟩

/-! ## References and what may be missing -/

theorem makes_reference (r : Reference) : Makes Always (internReference r) (Entry.ofReference r) fun _ _ => True := by
  cases r with
  | string s => exact (makes_string s).discard
  | type d => exact (makes_type d).discard
  | field f => exact (makes_field f).discard
  | method m => exact (makes_method m).discard
  | proto q => exact (makes_proto q).discard
  | handle k => exact (makes_handle k).discard
  | callSite c => exact (makes_callSite c).discard

theorem makes_string? (s : Option String) :
    Makes Always (internString? s) (Entry.ofString? s) fun p k => Option.Rel (fun h s => h.Names p.strings s) k s := by
  cases s with
  | none => exact .pure fun _ _ => .none
  | some s => exact (makes_string s).map fun _ _ h => .some h

theorem makes_type? (d : Option String) :
    Makes Always (internType? d) (Entry.ofType? d) fun p k => Option.Rel (fun h d => h.Names p.types d) k d := by
  cases d with
  | none => exact .pure fun _ _ => .none
  | some d =>
    have hentries : Entry.ofType? (some d) = Entry.ofType d := List.append_nil _
    rw [hentries]
    exact (makes_type d).map fun _ _ h => .some h

end Dalvik.Builder
