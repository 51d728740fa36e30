import Dalvik.Proofs.Assembly.Gathering
import Dalvik.Proofs.Builder.ClassOrder

/-!
# Histories of a builder

A builder is asked for the same as an assembly. As long as every key has a handle of its
own, each request keeps the arenas the codes of the pools of the assembly, and the interned
classes those of its classes (`Gathers.after`); so it is after any history
(`gathers_gather`).

A builder and an assembly that hold the same are finalized alike (`Gathers.on_finalize`).
The entries have the same indices then, and what is written agrees (`Gathers.write`). So
after any history, as long as all keys have handles of their own (`finalize_gather`).
-/

namespace Dalvik.Builder

open Assembly (Request)

/-! ## Requests -/

/-- What is interned on a request. Only a class is kept. -/
def interns : Request → Interning (Option InternedClass)
  | .string s => (fun _ => none) <$> internString s
  | .type d => (fun _ => none) <$> internType d
  | .typeList ts => (fun _ => none) <$> internTypeList ts
  | .proto p => (fun _ => none) <$> internProto p
  | .field f => (fun _ => none) <$> internField f
  | .method m => (fun _ => none) <$> internMethod m
  | .handle h => (fun _ => none) <$> internHandle h
  | .array vs => (fun _ => none) <$> internArray vs
  | .callSite c => (fun _ => none) <$> internCallSite c
  | .value v => (fun _ => none) <$> internValue v
  | .annotationItem a => (fun _ => none) <$> internAnnotationItem a
  | .annotationSet as => (fun _ => none) <$> internAnnotationSet as
  | .reference r => (fun _ => none) <$> internReference r
  | .classDef view =>
    match view.toClass with
    | .ok c => some <$> internClass c.ordered
    | .error _ => return none
  | .marker m => (fun _ => none) <$> internString m.text

/-- What is done on a request. -/
def serve : Request → Work Unit
  | .classDef view => addClass view
  | .marker m => addMarker m
  | r => discard (interning (interns r))

/-- The builder after a request, whether this fails or not. -/
def after (b : Builder) (r : Request) : Builder :=
  ((serve r).on b).2

/-- A new builder after some requests. -/
def gather (opcodes : Opcodes) (requests : List Request) : Builder :=
  requests.foldl after { opcodes }

theorem makes_interns (r : Request) :
    Makes Always (interns r) r.entries fun p k => Option.Rel (InternedClass.Codes p) k r.class? := by
  cases r with
  | string s => exact (makes_string s).map fun _ _ _ => .none
  | type d => exact (makes_type d).map fun _ _ _ => .none
  | typeList ts => exact (makes_typeList ts).map fun _ _ _ => .none
  | proto q => exact (makes_proto q).map fun _ _ _ => .none
  | field f => exact (makes_field f).map fun _ _ _ => .none
  | method m => exact (makes_method m).map fun _ _ _ => .none
  | handle k => exact (makes_handle k).map fun _ _ _ => .none
  | array vs => exact (makes_array vs).map fun _ _ _ => .none
  | callSite c => exact (makes_callSite c).map fun _ _ _ => .none
  | value v => exact (makes_value v).map fun _ _ _ => .none
  | annotationItem a => exact (makes_annotationItem a).map fun _ _ _ => .none
  | annotationSet as => exact (makes_annotationSet as).map fun _ _ _ => .none
  | reference q => exact (makes_reference q).map fun _ _ _ => .none
  | marker m => exact (makes_string m.text).map fun _ _ _ => .none
  | classDef view =>
    simp only [interns, Request.entries, Request.class?]
    cases view.toClass with
    | error e => exact .pure fun _ _ => .none
    | ok c =>
      have hentries : (some c.ordered).toList.flatMap Entry.ofClass = Entry.ofClass c.ordered := List.append_nil _
      show Makes Always _ ((some c.ordered).toList.flatMap Entry.ofClass) _
      rw [hentries]
      exact (makes_class c.ordered).map fun _ _ h => .some h

/-! ## Single requests -/

section steps

variable {b : Builder}

@[simp] theorem on_ofResult {α : Type} (r : Result α) : (ofResult r).on b = (r, b) := rfl

@[simp] theorem on_fail {α : Type} (cause : Cause) : (fail cause : Work α).on b = (Result.fail cause, b) := rfl

@[simp] theorem on_interning {α : Type} (work : Interning α) :
    (interning work).on b = ((work.on b.arenas).1, { b with arenas := (work.on b.arenas).2 }) := rfl

theorem on_claim (type : String) : (claim type).on b =
    if b.claimed.contains type then (Result.fail (.classDefinedTwice type), b)
    else (.ok (), { b with claimed := b.claimed.insert type }) := by
  unfold claim
  simp only [ExceptT.on_bind, ExceptT.on_get]
  cases b.claimed.contains type with
  | true => simp only [if_true, ExceptT.on_bind, on_fail, Result.fail]
  | false => simp only [if_false, Bool.false_eq_true, ExceptT.on_modify]

/-- Interning a class that is not refused adds the class. -/
theorem on_addClassDef (c : ClassDef) {k : InternedClass} {arenas : Arenas}
    (hk : (internClass c.ordered).on b.arenas = (.ok k, arenas)) :
    (addClassDef c).on b =
      if b.claimed.contains c.type then (Result.fail (.classDefinedTwice c.type), b)
      else (.ok (), { b with arenas, claimed := b.claimed.insert c.type, classes := b.classes.push k }) := by
  unfold addClassDef
  rw [ExceptT.on_bind, on_claim]
  cases b.claimed.contains c.type with
  | true => rfl
  | false =>
    simp only [Bool.false_eq_true, if_false, ExceptT.on_bind, ExceptT.on_tryCatch, on_interning, hk, ExceptT.on_modify]

theorem isFinalized_eq (ho : b.arenas.Open) : b.isFinalized = false :=
  ho.strings

theorem on_addClass (ho : b.arenas.Open) (view : ClassView) :
    (addClass view).on b =
      match view.toClass with
      | .ok c => (addClassDef c).on b
      | .error e => (.error e, b) := by
  unfold addClass
  simp only [ExceptT.on_bind, ExceptT.on_get, isFinalized_eq ho, Bool.false_eq_true, if_false, on_ofResult]
  cases view.toClass <;> rfl

theorem on_addMarker (m : Marker) {h : Handle String} {arenas : Arenas}
    (hm : (internString m.text).on b.arenas = (.ok h, arenas)) :
    (addMarker m).on b = (.ok (), { b with arenas, markers := b.markers.push m }) := by
  simp only [addMarker, ExceptT.on_bind, ExceptT.on_discard, on_interning, hm, Except.map, ExceptT.on_modify]

/-- What a request does: unless it adds a second class of a type, all that is interned for
it is there afterwards. -/
theorem after_eq (ho : b.arenas.Open) (r : Request) {k : Option InternedClass} {arenas : Arenas}
    (hinterns : (interns r).on b.arenas = (.ok k, arenas)) :
    b.after r =
      if r.class?.any fun c => b.claimed.contains c.type then b
      else { b with
        arenas
        claimed := b.claimed.insertMany (r.class?.toList.map (·.type))
        classes := b.classes ++ k.toArray
        markers := b.markers ++ r.marker?.toArray } := by
  cases r with
  | classDef view =>
    rw [after, serve, on_addClass ho]
    cases hview : view.toClass with
    | error e =>
      simp only [interns, hview] at hinterns
      cases hinterns
      simp [Request.class?, Request.marker?, hview, Except.toOption]
    | ok c =>
      simp only [interns, hview] at hinterns
      obtain ⟨k, hk, rfl⟩ := ExceptT.exists_on_of_on_map hinterns
      have htype : c.ordered.type = c.type := rfl
      simp only [on_addClassDef c hk, Request.class?, hview, Except.toOption, Option.map_some, Option.any_some, htype]
      split
      · rfl
      · simp [Request.marker?, htype]
  | marker m =>
    obtain ⟨h, hm, rfl⟩ := ExceptT.exists_on_of_on_map hinterns
    rw [after, serve, on_addMarker m hm]
    simp [Request.class?, Request.marker?]
  | _ =>
    obtain ⟨_, -, rfl⟩ := ExceptT.exists_on_of_on_map hinterns
    show ((discard (interning (interns _)) : Work Unit).on b).2 = _
    rw [ExceptT.on_discard, on_interning, hinterns]
    simp [Request.class?, Request.marker?]

/-- A request keeps open arenas open, and they only grow. -/
theorem open_after (ho : b.arenas.Open) (r : Request) :
    (b.after r).arenas.Open ∧ ((b.after r).arenas.Bounded → b.arenas.Bounded) := by
  obtain ⟨k, arenas, hinterns, hopen, hgrows, -⟩ := makes_interns r b.arenas ho
  rw [after_eq ho r hinterns]
  split
  · exact ⟨ho, id⟩
  · exact ⟨hopen, hgrows⟩

end steps

/-! ## Builders and assemblies -/

/-- The builder holds by handles what the assembly holds. -/
structure Gathers (b : Builder) (a : Assembly) : Prop where
  opcodes : b.opcodes = a.opcodes
  arenas : Arenas.Codes a.pools b.arenas a.pools
  claimed : b.claimed = a.claimed
  classes : List.Forall₂ (InternedClass.Codes a.pools) b.classes.toList a.classes.toList
  markers : b.markers = a.markers

theorem gathers_empty (opcodes : Opcodes) : Gathers { opcodes } { opcodes } where
  opcodes := rfl
  arenas := Arenas.codes_empty
  claimed := rfl
  classes := .nil
  markers := rfl

namespace Gathers

variable {b : Builder} {a : Assembly}

/-- A request adds the same to both. -/
theorem after (h : b.Gathers a) (ho : b.arenas.Open) (hgrowing : a.pools.Growing) (r : Request)
    (hbounded : (b.after r).arenas.Bounded ∨ (a.after r).pools.Bounded) : (b.after r).Gathers (a.after r) := by
  obtain ⟨k, arenas, hinterns, -, -, hmakes⟩ := makes_interns r b.arenas ho
  rw [after_eq ho r hinterns, Assembly.after_eq hgrowing r] at hbounded ⊢
  unfold Assembly.defines at hbounded ⊢
  rw [h.claimed] at hbounded ⊢
  split
  · exact h
  · rename_i hnew
    rw [if_neg hnew, if_neg hnew] at hbounded
    obtain ⟨hcodes, hclass⟩ := hmakes a.pools hgrowing h.arenas trivial hbounded
    refine ⟨h.opcodes, hcodes, rfl, ?_, congrArg (· ++ _) h.markers⟩
    have hext : a.pools.Extends (a.adding r).pools := .insertAll hgrowing r.entries
    rw [Assembly.adding, Array.toList_append, Array.toList_append, Option.toList_toArray, Option.toList_toArray]
    exact List.rel_append (h.classes.imp fun _ _ => .mono hext) (forall₂_toList hclass)

end Gathers

/-- A builder that has been asked for something holds by handles what the assembly holds
that has been asked for the same, as long as all keys have handles of their own. -/
theorem gathers_gather (opcodes : Opcodes) (requests : List Request) :
    (gather opcodes requests).arenas.Open ∧
      ((gather opcodes requests).arenas.Bounded ∨ (Assembly.gather opcodes requests).pools.Bounded →
        (gather opcodes requests).Gathers (Assembly.gather opcodes requests)) := by
  induction requests using List.reverseRecOn with
  | nil => exact ⟨Arenas.open_empty, fun _ => gathers_empty opcodes⟩
  | append_singleton requests r ih =>
    obtain ⟨hopen, hgathers⟩ := ih
    have hgrowing := (Assembly.gathered_gather opcodes requests).growing
    rw [gather, Assembly.gather, List.foldl_append, List.foldl_append, ← gather, ← Assembly.gather]
    refine ⟨(open_after hopen r).1, fun hbounded => ?_⟩
    refine (hgathers (hbounded.imp (open_after hopen r).2 fun hbounded => ?_)).after hopen hgrowing r hbounded
    show (Assembly.gather opcodes requests).pools.Bounded
    have hbounded : ((Assembly.gather opcodes requests).after r).pools.Bounded := hbounded
    rw [Assembly.after_eq hgrowing] at hbounded
    split at hbounded
    · exact hbounded
    · exact hbounded.of_insertAll

/-! ## Finalizing -/

variable {b : Builder} {a : Assembly}

/-- A builder is finalized by sealing its arenas. -/
theorem on_finalize (ho : b.arenas.Open) {arenas : Arenas} (h : b.arenas.finalize = .ok arenas) :
    finalize.on b = (.ok (), { b with arenas }) := by
  simp only [finalize, ExceptT.on_bind, ExceptT.on_get, isFinalized_eq ho, Bool.false_eq_true, if_false, on_ofResult, h,
    ExceptT.on_set]

namespace Gathers

/-- Both are finalized, and hold the same as before. -/
theorem on_finalize (h : b.Gathers a) (ho : b.arenas.Open) (hb : b.arenas.Bounded) (ha : a.Gathered) :
    ∃ arenas, finalize.on b = (.ok (), { b with arenas }) ∧ Arenas.SameKeys b.arenas arenas ∧
      arenas.isFinalized = true ∧ Gathers { b with arenas } a.finalized := by
  obtain ⟨arenas, hfinalize, hkeys, hfinalized, hcodes⟩ := h.arenas.finalize ho hb ha.growing ha.closed
  have hext := Arenas.extends_finalized a.pools
  exact ⟨arenas, Builder.on_finalize ho hfinalize, hkeys, hfinalized,
    { h with arenas := hcodes, classes := h.classes.imp fun _ _ => .mono hext }⟩

/-- The file is made from the same. -/
theorem blueprint (h : b.Gathers a) (hr : a.pools.Ranked) (hb : a.pools.Bounded) (hc : a.pools.Closed) :
    b.blueprint.Alike a.blueprint := by
  have halike := h.arenas.alike hr hc b.opcodes (ClassOrder.arrange a.classes.toList)
  rw [Builder.blueprint, Assembly.blueprint, arrange_definition h.arenas hr hb h.classes]
  exact h.opcodes ▸ halike

/-- The same bytes are written, or writing fails. -/
theorem write (h : b.Gathers a) (hfinalized : b.isFinalized = true) (hr : a.pools.Ranked) (hb : a.pools.Bounded)
    (hc : a.pools.Closed) : Result.Agree b.write (Assembly.write.on a).1 := by
  rw [Builder.write, if_pos hfinalized, Assembly.on_write hr]
  exact (h.blueprint hr hb hc).write

end Gathers

/-- A builder that is finalized after some requests, with the assembly that is finalized
after the same ones. -/
structure Finalizes (opcodes : Opcodes) (requests : List Request) (b : Builder) : Prop where
  /-- Every key that was gathered is there. -/
  keys : Arenas.SameKeys (gather opcodes requests).arenas b.arenas
  isFinalized : b.isFinalized = true
  gathers : b.Gathers (Assembly.gather opcodes requests).finalized
  bounded : (Assembly.gather opcodes requests).finalized.pools.Bounded

/-- As long as all keys have handles of their own, every history can be finalized. -/
theorem finalize_gather (opcodes : Opcodes) (requests : List Request)
    (hbounded : (gather opcodes requests).arenas.Bounded ∨ (Assembly.gather opcodes requests).pools.Bounded) :
    ∃ b, finalize.on (gather opcodes requests) = (.ok (), b) ∧ Finalizes opcodes requests b := by
  obtain ⟨hopen, hgathers⟩ := gathers_gather opcodes requests
  have hgathers := hgathers hbounded
  have hpools : (Assembly.gather opcodes requests).pools.Bounded := hbounded.elim hgathers.arenas.bounded_iff.mp id
  obtain ⟨arenas, hfinalize, hkeys, hfinalized, hgathers'⟩ :=
    hgathers.on_finalize hopen (hgathers.arenas.bounded_iff.mpr hpools) (Assembly.gathered_gather opcodes requests)
  exact ⟨_, hfinalize, { keys := hkeys, isFinalized := hfinalized, gathers := hgathers', bounded := { hpools with } }⟩

/-- A builder writes what the assembly writes that has been asked for the same. -/
theorem Finalizes.write {opcodes : Opcodes} {requests : List Request} (h : Finalizes opcodes requests b) :
    Result.Agree b.write (Assembly.write.on (Assembly.gather opcodes requests).finalized).1 := by
  have hgathered := Assembly.gathered_gather opcodes requests
  exact h.gathers.write h.isFinalized hgathered.growing.ranked_finalized h.bounded hgathered.closed.finalized

end Dalvik.Builder
