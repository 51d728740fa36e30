import Mathlib.Data.List.Induction
import Dalvik.Assembly
import Dalvik.Proofs.Assembly.Pools

/-!
# Histories of an assembly

An assembly is asked for one thing after another, and a request that fails by
itself changes nothing: `after_eq` says what a request does. `Gathered` is kept
by every request (`Gathered.after`), and so it holds after any history
(`gathered_gather`): the entries are closed, whatever the classes and markers
refer to is among them, and no two classes have one type.
-/

namespace Dalvik

namespace Assembly

/-- The outcome of some work on an assembly, and the assembly afterwards. -/
def Work.on {α : Type} (work : Work α) (a : Assembly) : Result α × Assembly :=
  work.run.run a

/-! ## Requests -/

/-- What an assembly can be asked to add. -/
inductive Request where
  | string (s : String)
  | type (descriptor : String)
  | typeList (types : List String)
  | proto (p : Prototype)
  | field (f : FieldSig)
  | method (m : MethodSig)
  | handle (h : MethodHandle)
  | array (values : List Value)
  | callSite (c : CallSite)
  | value (v : Value)
  | annotationItem (a : AnnotationItem)
  | annotationSet (annotations : List AnnotationItem)
  | reference (r : Reference)
  | classDef (view : ClassView)
  | marker (m : Marker)

namespace Request

/-- The class that a request is about, as it is added, unless it cannot be
copied. -/
def class? : Request → Option ClassDef
  | .classDef view => view.toClass.toOption.map ClassDef.ordered
  | _ => none

/-- The marker that a request is about. -/
def marker? : Request → Option Marker
  | .marker m => some m
  | _ => none

/-- The entries that a request makes. -/
def entries (r : Request) : List Entry :=
  match r with
  | .string s => [.string s]
  | .type d => Entry.ofType d
  | .typeList ts => Entry.ofTypeList ts
  | .proto p => Entry.ofProto p
  | .field f => Entry.ofField f
  | .method m => Entry.ofMethod m
  | .handle h => Entry.ofHandle h
  | .array vs => Entry.ofArray vs
  | .callSite c => Entry.ofCallSite c
  | .value v => Entry.ofValue v
  | .annotationItem a => Entry.ofAnnotationItem a
  | .annotationSet as => Entry.ofAnnotationSet as
  | .reference q => Entry.ofReference q
  | .classDef _ => r.class?.toList.flatMap Entry.ofClass
  | .marker m => [.string m.text]

/-- What is done on a request. -/
def work : Request → Work Unit
  | .classDef view => addClass view
  | .marker m => addMarker m
  | r => discard (intern r.entries)

theorem closed_entries (r : Request) : Entry.Closed r.entries := by
  cases r with
  | string s => exact .string s
  | type d => exact Entry.closed_ofType d
  | typeList ts => exact Entry.closed_ofTypeList ts
  | proto p => exact Entry.closed_ofProto p
  | field f => exact Entry.closed_ofField f
  | method m => exact Entry.closed_ofMethod m
  | handle h => exact Entry.closed_ofHandle h
  | array vs => exact Entry.closed_ofArray vs
  | callSite c => exact Entry.closed_ofCallSite c
  | value v => exact Entry.closed_ofValue v
  | annotationItem a => exact Entry.closed_ofAnnotationItem a
  | annotationSet as => exact Entry.closed_ofAnnotationSet as
  | reference q => exact Entry.closed_ofReference q
  | classDef view => exact .flatMap fun c _ => Entry.closed_ofClass c
  | marker m => exact .string m.text

theorem ofClass_subset (r : Request) {c : ClassDef} (h : c ∈ r.class?) : Entry.ofClass c ⊆ r.entries := by
  cases r with
  | classDef view =>
    exact fun e he => List.mem_flatMap.mpr ⟨c, Option.mem_toList.mpr h, he⟩
  | _ => cases h

theorem ordered_of_mem_class? (r : Request) {c : ClassDef} (h : c ∈ r.class?) : ∃ d : ClassDef, c = d.ordered := by
  cases r with
  | classDef view =>
    obtain ⟨d, -, rfl⟩ := Option.map_eq_some_iff.mp h
    exact ⟨d, rfl⟩
  | _ => cases h

theorem text_mem (r : Request) {m : Marker} (h : m ∈ r.marker?) : .string m.text ∈ r.entries := by
  cases r with
  | marker m' =>
    rw [Option.some.inj h]
    exact List.mem_singleton.mpr rfl
  | _ => cases h

end Request

/-- The assembly after a request, whether this fails or not. -/
def after (a : Assembly) (r : Request) : Assembly :=
  (r.work.on a).2

/-- A new assembly after some requests. -/
def gather (opcodes : Opcodes) (requests : List Request) : Assembly :=
  requests.foldl after { opcodes }

/-- The assembly with what a request makes. -/
def adding (a : Assembly) (r : Request) : Assembly :=
  { a with
    pools := a.pools.insertAll r.entries
    claimed := a.claimed.insertMany (r.class?.toList.map (·.type))
    classes := a.classes ++ r.class?.toArray
    markers := a.markers ++ r.marker?.toArray }

/-- Whether a type is the type of a class. -/
def defines (a : Assembly) (type : String) : Bool :=
  a.claimed.contains type

/-! ## Single requests -/

/-! The equations of `Work.on` for the steps that the operations are made of. -/

section steps

variable {α β : Type} (a : Assembly)

theorem on_bind (work : Work α) (next : α → Work β) : (work >>= next).on a =
    match work.on a with
    | (.ok v, b) => (next v).on b
    | (.error e, b) => (.error e, b) := by
  show ExceptT.bindCont next (work a).1 (work a).2 = _
  unfold Work.on
  show _ = match work a with
    | (.ok v, b) => next v b
    | (.error e, b) => (.error e, b)
  rcases work a with ⟨e | v, b⟩ <;> rfl

@[simp] theorem on_pure (v : α) : (pure v : Work α).on a = (.ok v, a) := rfl

@[simp] theorem on_get : (get : Work Assembly).on a = (.ok a, a) := rfl

@[simp] theorem on_set (b : Assembly) : (set b : Work Unit).on a = (.ok (), b) := rfl

@[simp] theorem on_modify (f : Assembly → Assembly) : (modify f : Work Unit).on a = (.ok (), f a) := rfl

@[simp] theorem on_ofResult (r : Result α) : (ofResult r).on a = (r, a) := rfl

@[simp] theorem on_fail (cause : Cause) : (fail cause : Work α).on a = (.fail cause, a) := rfl

theorem on_discard (work : Work α) : (discard work).on a = ((work.on a).1.map fun _ => (), (work.on a).2) := by
  show ((fun _ => ()) <$> work).on a = _
  rw [map_eq_pure_bind, on_bind]
  rcases work.on a with ⟨e | v, b⟩ <;> rfl

theorem on_tryCatch (work : Work α) (handle : Error → Work α) : (tryCatch work handle).on a =
    match work.on a with
    | (.ok v, b) => (.ok v, b)
    | (.error e, b) => (handle e).on b := by
  show ExceptT.tryCatch work handle a = match work a with
    | (.ok v, b) => (.ok v, b)
    | (.error e, b) => handle e b
  simp only [ExceptT.tryCatch, ExceptT.mk, bind, StateT.bind]
  rcases work a with ⟨e | v, b⟩ <;> rfl

theorem on_claim (type : String) : (claim type).on a =
    if a.defines type then (.fail (.classDefinedTwice type), a)
    else (.ok (), { a with claimed := a.claimed.insert type }) := by
  unfold claim defines
  simp only [on_bind, on_get]
  cases a.claimed.contains type with
  | true => simp only [if_true, on_bind, on_fail, Result.fail]
  | false => simp only [if_false, Bool.false_eq_true, on_modify]

end steps

/-- While the pools take keys, new entries can be made. -/
theorem on_forM_internOne {a : Assembly} (h : a.pools.Growing) (entries : List Entry) :
    (entries.forM internOne).on a = (.ok (), { a with pools := a.pools.insertAll entries }) := by
  induction entries generalizing a with
  | nil => rfl
  | cons e entries ih =>
    show (internOne e >>= fun _ => entries.forM internOne).on a = _
    have hone : (internOne e).on a = (.ok (), { a with pools := a.pools.insert e }) := by
      simp only [internOne, on_bind, on_get, on_ofResult, h.accept e, on_modify]
    rw [on_bind, hone]
    exact ih (h.insert e)

theorem on_intern {a : Assembly} (h : a.pools.Growing) (entries : List Entry) :
    (intern entries).on a = (.ok (entries.getLast?.bind (a.pools.insertAll entries).id?),
      { a with pools := a.pools.insertAll entries }) := by
  simp only [intern, on_bind, on_get, on_forM_internOne h, on_pure]

theorem on_addClassDef {a : Assembly} (h : a.pools.Growing) (c : ClassDef) :
    (addClassDef c).on a =
      if a.defines c.type then (.fail (.classDefinedTwice c.type), a)
      else (.ok (), { a with
        pools := a.pools.insertAll (Entry.ofClass c.ordered)
        claimed := a.claimed.insert c.type
        classes := a.classes.push c.ordered }) := by
  unfold addClassDef
  rw [on_bind, on_claim]
  cases a.defines c.type with
  | true => rfl
  | false =>
    have hgrowing : ({ a with claimed := a.claimed.insert c.type } : Assembly).pools.Growing := h
    simp only [Bool.false_eq_true, if_false, on_bind, on_tryCatch, on_discard, on_intern hgrowing, on_modify, Except.map]

theorem on_addClass {a : Assembly} (h : a.pools.Growing) (view : ClassView) :
    (addClass view).on a =
      match view.toClass with
      | .ok c => (addClassDef c).on a
      | .error e => (.error e, a) := by
  unfold addClass isFinalized
  simp only [on_bind, on_get, h.isFinalized, Bool.false_eq_true, if_false, on_ofResult]
  cases view.toClass <;> rfl

theorem on_addMarker {a : Assembly} (h : a.pools.Growing) (m : Marker) :
    (addMarker m).on a =
      (.ok (), { a with pools := a.pools.insertAll [.string m.text], markers := a.markers.push m }) := by
  simp only [addMarker, on_bind, on_discard, on_intern h, on_modify, Except.map]

/-- What a request does: unless it adds a second class of a type, all that it
makes is there afterwards. -/
theorem after_eq {a : Assembly} (h : a.pools.Growing) (r : Request) :
    a.after r = if r.class?.any fun c => a.defines c.type then a else a.adding r := by
  cases r with
  | classDef view =>
    cases hview : view.toClass with
    | error e =>
      simp [after, adding, Request.work, on_addClass h, Request.class?, Request.marker?, Request.entries, hview,
        Except.toOption, Pools.insertAll]
    | ok c =>
      have htype : c.ordered.type = c.type := rfl
      simp only [after, Request.work, on_addClass h, hview, on_addClassDef h, Request.class?, Except.toOption,
        Option.map_some, Option.any_some, htype]
      split
      · rfl
      · simp [adding, Request.class?, Request.marker?, Request.entries, hview, Except.toOption, htype]
  | marker m => simp [after, adding, Request.work, on_addMarker h, Request.class?, Request.marker?, Request.entries]
  | _ => simp [after, adding, Request.work, on_discard, on_intern h, Request.class?, Request.marker?]

/-! ## Histories -/

/-- What holds of an assembly that is not finalized. -/
structure Gathered (a : Assembly) : Prop where
  growing : a.pools.Growing
  closed : a.pools.Closed
  /-- What the classes are made of is there. -/
  classes : ∀ c ∈ a.classes, ∀ e ∈ Entry.ofClass c, a.pools.Has e
  ordered : ∀ c ∈ a.classes, ∃ d : ClassDef, c = d.ordered
  distinct : (a.classes.toList.map (·.type)).Nodup
  /-- The claimed types are those of the classes. -/
  claimed : ∀ type, a.defines type = true ↔ type ∈ a.classes.toList.map (·.type)
  markers : ∀ m ∈ a.markers, a.pools.Has (.string m.text)

theorem gathered_empty (opcodes : Opcodes) : Gathered { opcodes } where
  growing := Pools.growing_empty
  closed := Pools.closed_empty
  classes := by simp
  ordered := by simp
  distinct := by simp
  claimed := by simp [defines]
  markers := by simp

namespace Gathered

variable {a : Assembly}

/-- What holds is kept when closed entries are made, with a class of a new type and a
marker that are made of them. -/
theorem grow (h : a.Gathered) (class? : Option ClassDef) (marker? : Option Marker) {entries : List Entry}
    (hclosed : Entry.Closed entries) (hentries : ∀ c ∈ class?, Entry.ofClass c ⊆ entries)
    (hordered : ∀ c ∈ class?, ∃ d : ClassDef, c = d.ordered) (hnew : ∀ c ∈ class?, a.defines c.type = false)
    (hmarker : ∀ m ∈ marker?, .string m.text ∈ entries) :
    Gathered { a with
      pools := a.pools.insertAll entries
      claimed := a.claimed.insertMany (class?.toList.map (·.type))
      classes := a.classes ++ class?.toArray
      markers := a.markers ++ marker?.toArray } where
  growing := h.growing.insertAll _
  closed := h.closed.insertAll h.growing hclosed
  classes c hc e he := by
    refine h.growing.has_insertAll.mpr ?_
    rcases Array.mem_append.mp hc with hc | hc
    · exact .inr (h.classes c hc e he)
    · exact .inl (hentries c (Option.mem_toArray.mp hc) he)
  ordered c hc := by
    rcases Array.mem_append.mp hc with hc | hc
    · exact h.ordered c hc
    · exact hordered c (Option.mem_toArray.mp hc)
  distinct := by
    rw [Array.toList_append, List.map_append, List.nodup_append]
    refine ⟨h.distinct, ?_, fun t ht u hu => ?_⟩
    · cases class? <;> simp
    · obtain ⟨d, hd, rfl⟩ := List.mem_map.mp hu
      rintro rfl
      have hold := (h.claimed d.type).mpr ht
      rw [hnew d (by simpa using hd)] at hold
      cases hold
  claimed type := by
    have hold := h.claimed type
    unfold defines at hold ⊢
    rw [Std.HashSet.contains_insertMany_list, Bool.or_eq_true, hold, Array.toList_append, List.map_append,
      List.mem_append]
    simp
  markers m hm := by
    refine h.growing.has_insertAll.mpr ?_
    rcases Array.mem_append.mp hm with hm | hm
    · exact .inr (h.markers m hm)
    · exact .inl (hmarker m (Option.mem_toArray.mp hm))

theorem adding (h : a.Gathered) {r : Request} (hnew : ∀ c ∈ r.class?, a.defines c.type = false) :
    (a.adding r).Gathered :=
  h.grow r.class? r.marker? r.closed_entries (fun _ hc => r.ofClass_subset hc) (fun _ hc => r.ordered_of_mem_class? hc) hnew
    (fun _ hm => r.text_mem hm)

theorem after (h : a.Gathered) (r : Request) : (a.after r).Gathered := by
  rw [after_eq h.growing]
  split
  · exact h
  · rename_i hnew
    refine h.adding fun c hc => ?_
    rw [Option.mem_def.mp hc] at hnew
    simpa using hnew

end Gathered

/-- Every history leaves an assembly that holds what its classes and markers
refer to. -/
theorem gathered_gather (opcodes : Opcodes) (requests : List Request) : (gather opcodes requests).Gathered := by
  induction requests using List.reverseRecOn with
  | nil => exact gathered_empty opcodes
  | append_singleton requests r ih =>
    rw [gather, List.foldl_append]
    exact ih.after r

end Assembly

end Dalvik
