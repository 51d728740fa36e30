import Dalvik.Proofs.Assembly.Finalized

/-!
# Calls that fail

An assembly takes keys until it is finalized, and none from then on (`Reliable`); every
call keeps it so (`reliable_history`). Hence a call that fails leaves what has been
gathered as it was, and the types that are claimed are those of the classes. A file is
added class by class: where it fails, the classes before have been added
(`Stops`). `robust_history` says all of this of an assembly after any calls.
-/

namespace Dalvik

/-! ## What is gathered -/

namespace Pools

/-- The keys of all pools, by their ids. -/
structure Keys where
  strings : Array String
  types : Array String
  typeLists : Array (List String)
  protos : Array Prototype
  fields : Array FieldSig
  methods : Array MethodSig
  handles : Array MethodHandle
  arrays : Array (List Value)
  callSites : Array CallSite
  annotations : Array AnnotationItem
  annotationSets : Array (List AnnotationItem)

def keys (p : Pools) : Keys where
  strings := p.strings.keys
  types := p.types.keys
  typeLists := p.typeLists.keys
  protos := p.protos.keys
  fields := p.fields.keys
  methods := p.methods.keys
  handles := p.handles.keys
  arrays := p.arrays.keys
  callSites := p.callSites.keys
  annotations := p.annotations.keys
  annotationSets := p.annotationSets.keys

end Pools

namespace Pool

variable {α : Type} [BEq α] [Hashable α] (p : Pool α) (offsets : List UInt32)

@[simp] theorem keys_setOffsets : (p.setOffsets offsets).keys = p.keys := by
  unfold setOffsets
  split <;> rfl

@[simp] theorem isFinalized_setOffsets : (p.setOffsets offsets).isFinalized = p.isFinalized := by
  unfold setOffsets isFinalized
  split
  · rename_i h
    rw [h]
    rfl
  · rfl

end Pool

namespace Assembly

/-- Nothing has been gathered, given up or finalized from one assembly to the other. -/
structure Unchanged (a b : Assembly) : Prop where
  keys : b.pools.keys = a.pools.keys
  classes : b.classes = a.classes
  markers : b.markers = a.markers
  claimed : ∀ type, b.defines type = a.defines type
  isFinalized : b.isFinalized = a.isFinalized

theorem Unchanged.refl (a : Assembly) : Unchanged a a :=
  ⟨rfl, rfl, rfl, fun _ => rfl, rfl⟩

/-- The offsets of strings are no part of what is gathered. -/
theorem unchanged_recordStrings (a : Assembly) : Unchanged a a.recordStrings where
  keys := by simp only [Pools.keys, recordStrings, Pool.keys_setOffsets]
  classes := rfl
  markers := rfl
  claimed _ := rfl
  isFinalized := Pool.isFinalized_setOffsets ..

theorem has_recordStrings (a : Assembly) (e : Entry) : a.recordStrings.pools.Has e ↔ a.pools.Has e := by
  cases e with
  | string s =>
    show s ∈ (a.pools.strings.setOffsets _).keys ↔ s ∈ a.pools.strings.keys
    rw [Pool.keys_setOffsets]
  | _ => exact Iff.rfl

theorem closed_recordStrings {a : Assembly} (h : a.pools.Closed) : a.recordStrings.pools.Closed where
  proper he := h.proper ((has_recordStrings a _).mp he)
  support he hd := (has_recordStrings a _).mpr (h.support ((has_recordStrings a _).mp he) hd)

/-! ## Calls -/

/-- What an assembly can be called for. -/
inductive Call where
  | ask (r : Request)
  | add (file : FileView)
  | finalize
  | write

/-- What is done on a call. -/
def Call.work : Call → Work Unit
  | ask r => r.work
  | add file => addFile file
  | finalize => Assembly.finalize
  | write => discard Assembly.write

/-- Whether a call is not made of other calls. -/
def Call.isSingle : Call → Bool
  | add _ => false
  | _ => true

/-- A new assembly after some calls, whether these fail or not. -/
def history (opcodes : Opcodes) (calls : List Call) : Assembly :=
  calls.foldl (fun a call => (call.work.on a).2) { opcodes }

/-- What holds of an assembly that is finalized. -/
structure Sealed (a : Assembly) : Prop where
  ranked : a.pools.Ranked
  closed : a.pools.Closed
  /-- What the classes are made of is there. -/
  classes : ∀ c ∈ a.classes, ∀ e ∈ Entry.ofClass c, a.pools.Has e
  distinct : (a.classes.toList.map (·.type)).Nodup
  /-- The claimed types are those of the classes. -/
  claimed : ∀ type, a.defines type = true ↔ type ∈ a.classes.toList.map (·.type)

/-- Everything can be made, or nothing can. -/
def Reliable (a : Assembly) : Prop :=
  a.Gathered ∨ a.Sealed

namespace Reliable

variable {a : Assembly} (h : a.Reliable)

include h

theorem distinct : (a.classes.toList.map (·.type)).Nodup :=
  h.elim (·.distinct) (·.distinct)

theorem claimed (type : String) : a.defines type = true ↔ type ∈ a.classes.toList.map (·.type) :=
  h.elim (·.claimed type) (·.claimed type)

theorem sealed (hfinalized : a.isFinalized = true) : a.Sealed :=
  h.resolve_left fun hgathered => by
    rw [isFinalized, hgathered.growing.isFinalized] at hfinalized
    cases hfinalized

theorem gathered (hopen : a.isFinalized = false) : a.Gathered :=
  h.resolve_right fun hsealed => by
    rw [isFinalized, Pools.isFinalized, hsealed.ranked.strings.isFinalized] at hopen
    cases hopen

end Reliable

/-! ## Single calls -/

section single

variable {a b : Assembly}

/-- Whether it fails or not, making entries touches nothing but the pools. -/
theorem on_intern_eq (a : Assembly) (entries : List Entry) :
    ∃ outcome pools, (discard (intern entries) : Work Unit).on a = (outcome, { a with pools }) := by
  have hforM : ∃ outcome pools, (entries.forM internOne).on a = (outcome, { a with pools }) := by
    induction entries generalizing a with
    | nil => exact ⟨.ok (), a.pools, rfl⟩
    | cons e entries ih =>
      show ∃ outcome pools, (internOne e >>= fun _ => entries.forM internOne).on a = (outcome, { a with pools })
      simp only [internOne, on_bind, on_get, on_ofResult]
      cases a.pools.accept e with
      | error e => exact ⟨.error e, a.pools, rfl⟩
      | ok _ => exact ih { a with pools := a.pools.insert e }
  obtain ⟨outcome, pools, hforM⟩ := hforM
  rw [on_discard, intern, on_bind, hforM]
  cases outcome with
  | error e => exact ⟨.error e, pools, rfl⟩
  | ok _ => exact ⟨.ok (), pools, rfl⟩

/-- A class joins the list, or its type was there, or its type is given up. -/
theorem on_addClassDef_cases (a : Assembly) (c : ClassDef) :
    (∃ b, (addClassDef c).on a = (.ok (), b) ∧ b.classes = a.classes.push c.ordered) ∨
      (∃ e, (addClassDef c).on a = (.error e, a)) ∨ a.defines c.type = false ∧ ∃ e pools, (addClassDef c).on a =
        (.error e, { a with pools, claimed := (a.claimed.insert c.type).erase c.type }) := by
  obtain ⟨outcome, pools, hintern⟩ := on_intern_eq { a with claimed := a.claimed.insert c.type } (Entry.ofClass c.ordered)
  unfold addClassDef
  rw [on_bind, on_claim]
  cases hnew : a.defines c.type with
  | true => exact .inr (.inl ⟨_, rfl⟩)
  | false =>
    rw [if_neg Bool.false_ne_true]
    dsimp only
    rw [on_bind, on_tryCatch, hintern]
    cases outcome with
    | ok _ => exact .inl ⟨_, rfl, rfl⟩
    | error e => exact .inr (.inr ⟨rfl, _, pools, rfl⟩)

/-- While entries can be made, a class is added if it can be copied and no class has its
type, and otherwise nothing is. -/
theorem Gathered.on_addClass_cases (h : a.Gathered) (view : ClassView) :
    (∃ c, view.toClass = .ok c ∧ a.defines c.type = false ∧ ((addClass view).on a).1 = .ok ()) ∨
      (∀ c, view.toClass = .ok c → a.defines c.type = true) ∧ ∃ e, (addClass view).on a = (.error e, a) := by
  rw [on_addClass h.growing]
  cases hview : view.toClass with
  | error e => exact .inr ⟨fun _ hc => (nomatch hc), e, rfl⟩
  | ok c =>
    dsimp only
    rw [on_addClassDef h.growing]
    cases hdefined : a.defines c.type with
    | false => exact .inl ⟨c, rfl, hdefined, rfl⟩
    | true => exact .inr ⟨fun d hd => Except.ok.inj hd ▸ hdefined, _, rfl⟩

theorem Gathered.on_addClass_ok_iff (h : a.Gathered) (view : ClassView) :
    ((addClass view).on a).1 = .ok () ↔ ∃ c, view.toClass = .ok c ∧ a.defines c.type = false := by
  rcases h.on_addClass_cases view with ⟨c, hview, hnew, hadded⟩ | ⟨hdefined, e, hfails⟩
  · exact ⟨fun _ => ⟨c, hview, hnew⟩, fun _ => hadded⟩
  · refine ⟨fun hadded => ?_, fun ⟨c, hview, hnew⟩ => ?_⟩
    · rw [hfails] at hadded
      cases hadded
    · rw [hdefined c hview] at hnew
      cases hnew

/-- A request that fails changes nothing. -/
theorem Reliable.on_work_of_fails (h : a.Reliable) {r : Request} {e : Error} (hfails : (r.work.on a).1 = .error e) :
    (r.work.on a).2 = a := by
  rcases h with h | h
  · cases r with
    | classDef view =>
      rcases h.on_addClass_cases view with ⟨c, -, -, hadded⟩ | ⟨-, e', hfails'⟩
      · cases hfails.symm.trans hadded
      · exact congrArg Prod.snd hfails'
    | marker m =>
      rw [Request.work, on_addMarker h.growing] at hfails
      cases hfails
    | _ => simp [Request.work, on_discard, on_intern h.growing, Except.map] at hfails
  · exact after_eq_self h.ranked r

theorem Reliable.after (h : a.Reliable) (r : Request) : (a.after r).Reliable := by
  rcases h with h | h
  · exact .inl (h.after r)
  · rw [after_eq_self h.ranked r]
    exact .inr h

/-- While entries can be made, all of them can be given their indices. -/
theorem Gathered.sealed_finalize (h : a.Gathered) : finalize.on a = (.ok (), a.finalized) ∧ a.finalized.Sealed where
  left := on_finalize h.growing
  right := {
    ranked := h.growing.ranked_finalized
    closed := h.closed.finalized
    classes := fun c hc e he => (Pools.has_finalized e).mpr (h.classes c hc e he)
    distinct := h.distinct
    claimed := h.claimed }

theorem Reliable.on_finalize (h : a.Reliable) : (finalize.on a).2.Reliable := by
  rcases h with h | h
  · rw [h.sealed_finalize.1]
    exact .inr h.sealed_finalize.2
  · rw [finalize_eq_self h.ranked]
    exact .inr h

theorem Reliable.on_finalize_of_fails (h : a.Reliable) {e : Error} (hfails : (finalize.on a).1 = .error e) :
    (finalize.on a).2 = a := by
  rcases h with h | h
  · rw [h.sealed_finalize.1] at hfails
    cases hfails
  · exact finalize_eq_self h.ranked

/-- Nothing is written before every entry has its index. -/
theorem Gathered.on_write (h : a.Gathered) : write.on a = (.fail .writeBeforeFinalize, a) := by
  have hopen : a.isFinalized = false := h.growing.isFinalized
  simp only [write, on_bind, on_get, hopen, Bool.not_false, if_true, on_fail, Result.fail]

theorem Sealed.recordStrings (h : a.Sealed) : a.recordStrings.Sealed where
  ranked := ranked_recordStrings h.ranked
  closed := closed_recordStrings h.closed
  classes c hc e he := (has_recordStrings a e).mpr (h.classes c hc e he)
  distinct := h.distinct
  claimed := h.claimed

/-- Whether it fails or not, writing leaves what is gathered as it is. -/
theorem Reliable.on_write (h : a.Reliable) : (write.on a).2.Reliable ∧ Unchanged a (write.on a).2 := by
  rcases h with h | h
  · rw [h.on_write]
    exact ⟨.inl h, .refl a⟩
  · rw [Assembly.on_write h.ranked]
    exact ⟨.inr h.recordStrings, unchanged_recordStrings a⟩

/-- What has been written was finalized. -/
theorem Reliable.sealed_of_write (h : a.Reliable) {bytes : Bytes} (hwrite : (write.on a).1 = .ok bytes) :
    a.Sealed ∧ a.blueprint.write = .ok bytes := by
  rcases h with h | h
  · rw [h.on_write] at hwrite
    cases hwrite
  · rw [Assembly.on_write h.ranked] at hwrite
    exact ⟨h, hwrite⟩

end single

/-! ## Files -/

section files

variable {a b : Assembly} {classes : Items ClassView} {markers : List Marker}

/-- Adds the class at an index. -/
def addClassAt (classes : Items ClassView) (index : Nat) : Work Unit := do
  addClass (← ofResult (classes.get index))

theorem addClassesFrom_succ (classes : Items ClassView) (index count : Nat) : addClassesFrom classes index (count + 1) =
    (do addClassAt classes index; addClassesFrom classes (index + 1) count) := by
  rw [addClassesFrom, addClassAt, bind_assoc]

theorem Reliable.addClassAt (h : a.Reliable) (classes : Items ClassView) (index : Nat) :
    ((addClassAt classes index).on a).2.Reliable := by
  rw [Assembly.addClassAt, on_bind, on_ofResult]
  cases classes.get index with
  | error e => exact h
  | ok view => exact h.after (.classDef view)

/-- A class that is not added leaves nothing behind. -/
theorem Reliable.on_addClassAt_of_fails (h : a.Reliable) {index : Nat} {e : Error}
    (hfails : (Assembly.addClassAt classes index).on a = (.error e, b)) : b = a := by
  rw [Assembly.addClassAt, on_bind, on_ofResult] at hfails
  cases hget : classes.get index with
  | error e' =>
    rw [hget] at hfails
    exact (congrArg Prod.snd hfails).symm
  | ok view =>
    rw [hget] at hfails
    have hsame := h.on_work_of_fails (r := .classDef view) (congrArg Prod.fst hfails)
    exact (congrArg Prod.snd hfails).symm.trans hsame

/-- Classes from an index on are added, up to a number of them. -/
structure AddsUpTo (classes : Items ClassView) (index : Nat) (a : Assembly) (views : List ClassView) (b : Assembly) :
    Prop where
  get : ∀ i (h : i < views.length), classes.get (index + i) = .ok views[i]
  added : (views.forM addClass).on a = (.ok (), b)

theorem AddsUpTo.nil (index : Nat) (a : Assembly) : AddsUpTo classes index a [] a :=
  ⟨nofun, rfl⟩

theorem AddsUpTo.cons {index : Nat} {view : ClassView} {views : List ClassView} {c : Assembly}
    (hget : classes.get index = .ok view) (hfirst : (addClass view).on a = (.ok (), b))
    (h : AddsUpTo classes (index + 1) b views c) : AddsUpTo classes index a (view :: views) c where
  get i hi := by
    cases i with
    | zero => exact hget
    | succ i =>
      rw [show index + (i + 1) = index + 1 + i by omega]
      exact h.get i (Nat.lt_of_succ_lt_succ hi)
  added := by
    show (addClass view >>= fun _ => views.forM addClass).on a = _
    rw [on_bind, hfirst]
    exact h.added

/-- Classes are added one after the other, up to one that fails. -/
theorem Reliable.addClassesFrom (h : a.Reliable) (classes : Items ClassView) (index count : Nat) :
    ∃ views b, b.Reliable ∧ AddsUpTo classes index a views b ∧
      (views.length = count ∧ (Assembly.addClassesFrom classes index count).on a = (.ok (), b) ∨
        views.length < count ∧ ∃ e, (Assembly.addClassAt classes (index + views.length)).on b = (.error e, b) ∧
          (Assembly.addClassesFrom classes index count).on a = (.error e, b)) := by
  induction count generalizing a index with
  | zero => exact ⟨[], a, h, .nil index a, .inl ⟨rfl, rfl⟩⟩
  | succ count ih =>
    rw [addClassesFrom_succ, on_bind]
    obtain ⟨outcome, b, hfirst⟩ : ∃ outcome b, (Assembly.addClassAt classes index).on a = (outcome, b) := ⟨_, _, rfl⟩
    have hb : b.Reliable := by
      have := h.addClassAt classes index
      rwa [hfirst] at this
    rw [hfirst]
    cases outcome with
    | error e =>
      obtain rfl := h.on_addClassAt_of_fails hfirst
      exact ⟨[], b, h, .nil index b, .inr ⟨Nat.succ_pos count, e, hfirst, rfl⟩⟩
    | ok v =>
      obtain ⟨view, hget, hadded⟩ : ∃ view, classes.get index = .ok view ∧ (addClass view).on a = (.ok (), b) := by
        rw [Assembly.addClassAt, on_bind, on_ofResult] at hfirst
        cases hget : classes.get index with
        | error e =>
          rw [hget] at hfirst
          cases hfirst
        | ok view =>
          rw [hget] at hfirst
          exact ⟨view, rfl, hfirst⟩
      obtain ⟨views, c, hc, hadds, hends⟩ := ih hb (index + 1)
      refine ⟨view :: views, c, hc, .cons hget hadded hadds, ?_⟩
      rcases hends with ⟨hall, houtcome⟩ | ⟨hlt, e, hfails, houtcome⟩
      · exact .inl ⟨congrArg (· + 1) hall, houtcome⟩
      · refine .inr ⟨Nat.succ_lt_succ hlt, e, ?_, houtcome⟩
        rw [List.length_cons, show index + (views.length + 1) = index + 1 + views.length by omega]
        exact hfails

/-- While entries can be made, all markers are added. -/
theorem Gathered.on_addMarkers (h : a.Gathered) (markers : List Marker) :
    ∃ b, (markers.forM addMarker).on a = (.ok (), b) ∧ b.Gathered := by
  induction markers generalizing a with
  | nil => exact ⟨a, rfl, h⟩
  | cons m markers ih =>
    have hfirst := on_addMarker h.growing m
    have hb : ((addMarker m).on a).2.Gathered := h.after (.marker m)
    rw [hfirst] at hb
    obtain ⟨b, hrest, hgathered⟩ := ih hb
    refine ⟨b, ?_, hgathered⟩
    show (addMarker m >>= fun _ => markers.forM addMarker).on a = _
    rw [on_bind, hfirst]
    exact hrest

/-- Steps that leave an assembly as it is do so one after the other. -/
theorem on_bind_eq_self {α β : Type} {work : Work α} {next : α → Work β} (hwork : (work.on a).2 = a)
    (hnext : ∀ v, ((next v).on a).2 = a) : ((work >>= next).on a).2 = a := by
  rw [on_bind]
  obtain ⟨outcome, b, hfirst⟩ : ∃ outcome b, work.on a = (outcome, b) := ⟨_, _, rfl⟩
  rw [hfirst] at hwork ⊢
  cases hwork
  cases outcome with
  | error e => rfl
  | ok v => exact hnext v

theorem Sealed.on_addMarkers (h : a.Sealed) (markers : List Marker) : ((markers.forM addMarker).on a).2 = a := by
  induction markers with
  | nil => rfl
  | cons m markers ih => exact on_bind_eq_self (after_eq_self h.ranked (.marker m)) fun _ => ih

theorem Sealed.on_addClassesFrom (h : a.Sealed) (classes : Items ClassView) (index count : Nat) :
    ((Assembly.addClassesFrom classes index count).on a).2 = a := by
  induction count generalizing index with
  | zero => rfl
  | succ count ih =>
    exact on_bind_eq_self rfl fun view =>
      on_bind_eq_self (after_eq_self h.ranked (.classDef view)) fun _ => ih (index + 1)

/-- A file is not added to an assembly that is finalized. -/
theorem Sealed.on_addFile (h : a.Sealed) (file : FileView) : ((addFile file).on a).2 = a :=
  on_bind_eq_self (h.on_addClassesFrom ..) fun _ => on_bind_eq_self rfl fun markers => h.on_addMarkers markers

/-- A file fails to be added: the classes in front of the one that fails are added, and
nothing else. It is one of its classes that fails, or all of them are added. -/
structure Stops (file : FileView) (a : Assembly) (e : Error) (views : List ClassView) (b : Assembly) : Prop where
  length_le : views.length ≤ file.classes.count
  get : ∀ i (h : i < views.length), file.classes.get i = .ok views[i]
  added : (views.forM addClass).on a = (.ok (), b)
  fails : views.length < file.classes.count → (addClassAt file.classes views.length).on b = (.error e, b)
  outcome : (addFile file).on a = (.error e, b)

/-- Either the markers of a file are all added or none is. -/
theorem Reliable.addMarkers (h : a.Reliable) (markers : Result (List Marker)) :
    (∃ b, (do (← ofResult markers).forM addMarker : Work Unit).on a = (.ok (), b) ∧ b.Reliable) ∨
      ∃ e, (do (← ofResult markers).forM addMarker : Work Unit).on a = (.error e, a) := by
  rw [on_bind, on_ofResult]
  cases markers with
  | error e => exact .inr ⟨e, rfl⟩
  | ok markers =>
    dsimp only
    rcases h with h | h
    · obtain ⟨b, hadded, hb⟩ := h.on_addMarkers markers
      exact .inl ⟨b, hadded, .inl hb⟩
    · have hsame := h.on_addMarkers markers
      obtain ⟨outcome, b, hrest⟩ : ∃ outcome b, (markers.forM addMarker).on a = (outcome, b) := ⟨_, _, rfl⟩
      rw [hrest] at hsame ⊢
      cases hsame
      cases outcome with
      | error e => exact .inr ⟨e, rfl⟩
      | ok v => exact .inl ⟨b, rfl, .inr h⟩

theorem Reliable.on_addFile (h : a.Reliable) (file : FileView) :
    (∃ b, (addFile file).on a = (.ok (), b) ∧ b.Reliable) ∨ ∃ e views b, Stops file a e views b ∧ b.Reliable := by
  obtain ⟨views, b, hb, hadds, hends⟩ := h.addClassesFrom file.classes 0 file.classes.count
  have hget (i : Nat) (hi : i < views.length) : file.classes.get i = .ok views[i] := by
    rw [← hadds.get i hi, Nat.zero_add]
  have hfile : (addFile file).on a = _ := on_bind a (Assembly.addClassesFrom file.classes 0 file.classes.count) _
  rcases hends with ⟨hall, hclasses⟩ | ⟨hlt, e, hfails, hclasses⟩
  · rw [hclasses] at hfile
    dsimp only at hfile
    rcases hb.addMarkers file.markers with ⟨c, hmarkers, hc⟩ | ⟨e, hmarkers⟩
    · exact .inl ⟨c, hfile.trans hmarkers, hc⟩
    · exact .inr ⟨e, views, b, ⟨hall.le, hget, hadds.added, fun hlt => absurd hall hlt.ne, hfile.trans hmarkers⟩, hb⟩
  · rw [hclasses] at hfile
    rw [Nat.zero_add] at hfails
    exact .inr ⟨e, views, b, ⟨hlt.le, hget, hadds.added, fun _ => hfails, hfile⟩, hb⟩

end files

/-! ## Histories -/

variable {a : Assembly}

/-- Every call keeps an assembly reliable. -/
theorem Reliable.on_call (h : a.Reliable) (call : Call) : (call.work.on a).2.Reliable := by
  cases call with
  | ask r => exact h.after r
  | add file =>
    rcases h.on_addFile file with ⟨b, hadded, hb⟩ | ⟨e, views, b, hstops, hb⟩
    · exact hadded ▸ hb
    · exact hstops.outcome ▸ hb
  | finalize => exact h.on_finalize
  | write =>
    rw [Call.work, on_discard]
    exact h.on_write.1

theorem reliable_history (opcodes : Opcodes) (calls : List Call) : (history opcodes calls).Reliable := by
  induction calls using List.reverseRecOn with
  | nil => exact .inl (gathered_empty opcodes)
  | append_singleton calls call ih =>
    rw [history, List.foldl_append]
    exact ih.on_call call

/-- What can be relied upon of an assembly, whatever it is called for next. -/
structure Robust (a : Assembly) : Prop where
  /-- A single call that fails changes nothing that is gathered. -/
  unchanged_of_fails : ∀ call : Call, call.isSingle → ∀ e, (call.work.on a).1 = .error e → Unchanged a (call.work.on a).2
  /-- After a class that is not added, a class can be added just if it could before. -/
  retries : a.isFinalized = false → ∀ view e, ((addClass view).on a).1 = .error e → ∀ next,
    ((addClass next).on ((addClass view).on a).2).1 = .ok () ↔
      ∃ c, next.toClass = .ok c ∧ c.type ∉ a.classes.toList.map (·.type)
  distinct : (a.classes.toList.map (·.type)).Nodup
  /-- The claimed types are those of the classes. -/
  claimed : ∀ type, a.defines type = true ↔ type ∈ a.classes.toList.map (·.type)
  /-- Once an assembly is finalized no call changes what is gathered. -/
  unchanged_of_finalized : a.isFinalized = true → ∀ call : Call, Unchanged a (call.work.on a).2
  /-- A file that fails to be added leaves the classes in front of the failure. -/
  stops : ∀ file e, ((addFile file).on a).1 = .error e → ∃ views, Stops file a e views ((addFile file).on a).2

theorem Reliable.robust (h : a.Reliable) : a.Robust where
  unchanged_of_fails call hsingle e hfails := by
    cases call with
    | ask r => rw [Call.work, h.on_work_of_fails hfails]; exact .refl a
    | add file => cases hsingle
    | finalize => rw [Call.work, h.on_finalize_of_fails hfails]; exact .refl a
    | write =>
      rw [Call.work, on_discard]
      exact h.on_write.2
  retries hopen view e hfails next := by
    have hsame : ((addClass view).on a).2 = a := h.on_work_of_fails (r := .classDef view) hfails
    rw [hsame, (h.gathered hopen).on_addClass_ok_iff]
    simp only [← h.claimed, Bool.not_eq_true]
  distinct := h.distinct
  claimed := h.claimed
  unchanged_of_finalized hfinalized call := by
    have hsealed := h.sealed hfinalized
    cases call with
    | ask r =>
      have hsame : (r.work.on a).2 = a := after_eq_self hsealed.ranked r
      rw [Call.work, hsame]
      exact .refl a
    | add file => rw [Call.work, hsealed.on_addFile]; exact .refl a
    | finalize => rw [Call.work, finalize_eq_self hsealed.ranked]; exact .refl a
    | write =>
      rw [Call.work, on_discard]
      exact h.on_write.2
  stops file e hfails := by
    rcases h.on_addFile file with ⟨b, hadded, -⟩ | ⟨e', views, b, hstops, -⟩
    · rw [hadded] at hfails
      cases hfails
    · rw [hstops.outcome] at hfails
      cases hfails
      exact ⟨views, hstops.outcome ▸ hstops⟩

/-- Whatever an assembly has been called for, calls that fail leave no trace. -/
theorem robust_history (opcodes : Opcodes) (calls : List Call) : (history opcodes calls).Robust :=
  (reliable_history opcodes calls).robust

end Assembly

end Dalvik
