import Dalvik.Assembly.Entry
import Dalvik.Proofs.Order.Value
import Dalvik.Proofs.Text.Utf16

/-!
# What entries are made of

`Entry.support` lists the entries that an entry is made of. A list of entries is
`Closed` when it holds these too and none of its entries is one that the format
has no place for: lists of types and sets of annotations are not empty, and
annotations are arranged. All lists that a file gathers are closed
(`closed_ofClass` for those of a class).
-/

namespace Dalvik

namespace AnnotationItem

theorem sorted_sorted (elements : Elements) : elements.sorted.sorted = elements.sorted :=
  List.mergeSort_of_pairwise (mergeSort_pairwise_isLE_on Prod.fst Utf16.compare elements)

@[simp] theorem arranged_arranged (a : AnnotationItem) : a.arranged.arranged = a.arranged := by
  simp only [arranged, make, sorted_sorted]

theorem setOf_ne_nil {annotations : List AnnotationItem} (h : annotations ≠ []) : setOf annotations ≠ [] := by
  obtain ⟨a, rest, rfl⟩ := List.exists_cons_of_ne_nil h
  exact List.ne_nil_of_mem (mem_setOf.mpr (List.mem_cons_self (l := rest.map arranged)))

end AnnotationItem

namespace Entry

/-! ## Support -/

/-- The entries that an entry is made of, and those that these are made of. -/
def support : Entry → List Entry
  | .string _ => []
  | .type d => [.string d]
  | .typeList ts => ts.flatMap ofType
  | .proto p => .string p.shorty :: ofType p.returnType ++ ofTypeList p.parameters
  | .field f => ofType f.definingClass ++ .string f.name :: ofType f.type
  | .method m => ofType m.definingClass ++ .string m.name :: ofProto m.proto
  | .handle h => ofMember h.member
  | .array vs => ofValues vs
  | .callSite c => ofArray c.values
  | .annotationItem a => ofType a.type ++ ofElements a.elements
  | .annotationSet as => as.map .annotationItem

/-- Whether the format has a place for an entry. -/
def Proper : Entry → Prop
  | .typeList ts => ts ≠ []
  | .annotationItem a => a.arranged = a
  | .annotationSet as => as ≠ [] ∧ as.Pairwise (compare · · = .lt)
  | _ => True

/-- The entries are proper, and what they are made of is among them. -/
structure Closed (entries : List Entry) : Prop where
  proper : ∀ {e : Entry}, e ∈ entries → e.Proper
  support : ∀ {e : Entry}, e ∈ entries → e.support ⊆ entries

/-! ## Closed lists -/

namespace Closed

theorem nil : Closed [] where
  proper he := nomatch he
  support he := nomatch he

variable {l l' : List Entry}

theorem append (h : Closed l) (h' : Closed l') : Closed (l ++ l') where
  proper he := (List.mem_append.mp he).elim h.proper h'.proper
  support he := (List.mem_append.mp he).elim
    (fun he => List.Subset.trans (h.support he) (List.subset_append_left l l'))
    (fun he => List.Subset.trans (h'.support he) (List.subset_append_right l l'))

/-- An entry may follow what it is made of. -/
theorem concat (h : Closed l) {e : Entry} (hproper : e.Proper) (hsupport : e.support ⊆ l) : Closed (l ++ [e]) where
  proper he := by
    rcases List.mem_append.mp he with he | he
    · exact h.proper he
    · rwa [List.mem_singleton.mp he]
  support he := by
    rcases List.mem_append.mp he with he | he
    · exact List.Subset.trans (h.support he) (List.subset_append_left l [e])
    · rw [List.mem_singleton.mp he]
      exact List.Subset.trans hsupport (List.subset_append_left l [e])

theorem string (s : String) : Closed [.string s] := nil.concat trivial (List.nil_subset _)

theorem cons_string (s : String) (h : Closed l) : Closed (.string s :: l) := (string s).append h

theorem flatMap {α : Type} {f : α → List Entry} {l : List α} (h : ∀ a ∈ l, Closed (f a)) :
    Closed (l.flatMap f) where
  proper he := by
    obtain ⟨a, ha, he⟩ := List.mem_flatMap.mp he
    exact (h a ha).proper he
  support he := by
    obtain ⟨a, ha, he⟩ := List.mem_flatMap.mp he
    exact fun d hd => List.mem_flatMap.mpr ⟨a, ha, (h a ha).support he hd⟩

end Closed

/-! ## The entries of what a file holds -/

theorem closed_ofType (d : String) : Closed (ofType d) :=
  (Closed.string d).concat trivial (List.Subset.refl _)

theorem closed_ofTypeList (ts : List String) : Closed (ofTypeList ts) := by
  unfold ofTypeList
  split
  · exact .nil
  · rename_i h
    exact (Closed.flatMap fun d _ => closed_ofType d).concat (by simpa [Proper] using h) (List.Subset.refl _)

theorem closed_ofProto (p : Prototype) : Closed (ofProto p) :=
  (((closed_ofType p.returnType).cons_string p.shorty).append (closed_ofTypeList p.parameters)).concat trivial
    (List.Subset.refl _)

theorem closed_ofField (f : FieldSig) : Closed (ofField f) :=
  ((closed_ofType f.definingClass).append ((closed_ofType f.type).cons_string f.name)).concat trivial
    (List.Subset.refl _)

theorem closed_ofMethod (m : MethodSig) : Closed (ofMethod m) :=
  ((closed_ofType m.definingClass).append ((closed_ofProto m.proto).cons_string m.name)).concat trivial
    (List.Subset.refl _)

theorem closed_ofMember (m : HandleMember) : Closed (ofMember m) := by
  cases m with
  | field f => exact closed_ofField f
  | method m => exact closed_ofMethod m

theorem closed_ofHandle (h : MethodHandle) : Closed (ofHandle h) :=
  (closed_ofMember h.member).concat trivial (List.Subset.refl _)

mutual

theorem closed_ofValue (v : Value) : Closed (ofValue v) := by
  cases v with
  | proto p => exact closed_ofProto p
  | handle h => exact closed_ofHandle h
  | string s => exact .string s
  | type d => exact closed_ofType d
  | field f | enum f => exact closed_ofField f
  | method m => exact closed_ofMethod m
  | array vs => exact closed_ofValues vs
  | nested t es => exact (closed_ofType t).append (closed_ofElements es)
  | _ => exact .nil

theorem closed_ofValues (vs : List Value) : Closed (ofValues vs) := by
  match vs with
  | [] => exact .nil
  | v :: vs => exact (closed_ofValue v).append (closed_ofValues vs)

theorem closed_ofElements (es : List (String × Value)) : Closed (ofElements es) := by
  match es with
  | [] => exact .nil
  | (name, v) :: es => exact ((closed_ofValue v).cons_string name).append (closed_ofElements es)

end

theorem closed_ofArray (vs : List Value) : Closed (ofArray vs) :=
  (closed_ofValues vs).concat trivial (List.Subset.refl _)

theorem closed_ofCallSite (c : CallSite) : Closed (ofCallSite c) :=
  (closed_ofArray c.values).concat trivial (List.Subset.refl _)

theorem closed_ofAnnotationItem (a : AnnotationItem) : Closed (ofAnnotationItem a) :=
  ((closed_ofType _).append (closed_ofElements _)).concat a.arranged_arranged (List.Subset.refl _)

theorem closed_ofAnnotationSet (annotations : List AnnotationItem) : Closed (ofAnnotationSet annotations) := by
  unfold ofAnnotationSet
  split
  · exact .nil
  rename_i hne
  refine (Closed.flatMap fun a _ => closed_ofAnnotationItem a).concat
    ⟨AnnotationItem.setOf_ne_nil (by simpa using hne), AnnotationItem.setOf_pairwise annotations⟩ fun e he => ?_
  obtain ⟨a, ha, rfl⟩ := List.mem_map.mp he
  obtain ⟨b, hb, rfl⟩ := List.mem_map.mp (AnnotationItem.mem_setOf.mp ha)
  exact List.mem_flatMap.mpr ⟨b, hb, List.mem_append_right _ (List.mem_singleton.mpr rfl)⟩

theorem closed_ofReference (r : Reference) : Closed (ofReference r) := by
  cases r with
  | string s => exact .string s
  | type d => exact closed_ofType d
  | field f => exact closed_ofField f
  | method m => exact closed_ofMethod m
  | proto p => exact closed_ofProto p
  | handle h => exact closed_ofHandle h
  | callSite c => exact closed_ofCallSite c

theorem closed_ofString? (s : Option String) : Closed (ofString? s) := by
  cases s with
  | none => exact .nil
  | some s => exact .string s

theorem closed_ofType? (d : Option String) : Closed (ofType? d) :=
  .flatMap fun d _ => closed_ofType d

theorem closed_ofDebugEvent (e : DebugEvent) : Closed (ofDebugEvent e) := by
  cases e with
  | startLocal r n t s => exact ((closed_ofString? n).append (closed_ofString? s)).append (closed_ofType? t)
  | setFile n => exact closed_ofString? n
  | _ => exact .nil

theorem closed_ofCode (c : Code) : Closed (ofCode c) :=
  ((Closed.flatMap fun _ _ => .flatMap fun r _ => closed_ofReference r).append
    (.flatMap fun _ _ => .flatMap fun h _ => closed_ofType? h.type)).append
    (.flatMap fun d _ => closed_ofDebugEvent d.event)

theorem closed_ofFieldDef (f : FieldDef) : Closed (ofFieldDef f) :=
  (closed_ofField f.sig).append (closed_ofAnnotationSet f.annotations)

theorem closed_ofMethodDef (m : MethodDef) : Closed (ofMethodDef m) :=
  ((((Closed.flatMap fun p _ => closed_ofAnnotationSet p.annotations).append
    (.flatMap fun p _ => closed_ofString? p.name)).append (.flatMap fun c _ => closed_ofCode c)).append
    (closed_ofMethod m.sig)).append (closed_ofAnnotationSet m.annotations)

theorem closed_ofStaticValues (vs : List Value) : Closed (ofStaticValues vs) := by
  unfold ofStaticValues
  split
  · exact .nil
  · exact closed_ofArray vs

theorem closed_ofClass (c : ClassDef) : Closed (ofClass c) :=
  (((((((closed_ofType c.type).append (closed_ofType? c.superclass)).append (closed_ofTypeList c.interfaces)).append
    (closed_ofString? c.sourceFile)).append (closed_ofAnnotationSet c.annotations)).append
    (closed_ofStaticValues c.staticValues)).append (.flatMap fun f _ => closed_ofFieldDef f)).append
    (.flatMap fun m _ => closed_ofMethodDef m)

end Entry

end Dalvik
