import Dalvik.Proofs.Assembly.RoundTrip
import Dalvik.Proofs.Class.Sharing

/-!
# Written files can be opened

Whatever classes have been added to an assembly, the file that it is written as is
accepted by the readers. What the readers make of the content depends on the numbers:
the writers emit flags of members, addresses, registers and lines in full, and the
readers take them up to `extentBound`; the writers emit all bits of the restrictions of
members, and the readers know those of two domains. `Assembly.toDexFile_build`: a file of
sound classes is read as a whole if all such numbers of its classes are small, and if its
members are told apart it is read only then.
-/

namespace Dalvik

/-! ## Classes in order -/

namespace ClassDef

variable {c : ClassDef}

theorem perm_fields_ordered (c : ClassDef) : c.ordered.fields.Perm c.fields :=
  (sortedBy_perm ..).append (sortedBy_perm ..)

theorem perm_methods_ordered (c : ClassDef) : c.ordered.methods.Perm c.methods :=
  (sortedBy_perm ..).append (sortedBy_perm ..)

theorem mem_restrictions_ordered {r : Option HiddenApi} : r ∈ c.ordered.restrictions ↔ r ∈ c.restrictions :=
  ((c.perm_fields_ordered.map _).append (c.perm_methods_ordered.map _)).mem_iff

theorem Sound.ordered (h : c.Sound) : c.ordered.Sound := fun m hm =>
  h m (c.perm_methods_ordered.mem_iff.mp hm)

theorem small_ordered_iff : c.ordered.Small ↔ c.Small := by
  constructor
  · intro h
    exact {
      fieldFlags := fun f hf => h.fieldFlags f (c.perm_fields_ordered.mem_iff.mpr hf)
      methodFlags := fun m hm => h.methodFlags m (c.perm_methods_ordered.mem_iff.mpr hm)
      restrictions := fun r hr => h.restrictions r (mem_restrictions_ordered.mpr hr)
      code := fun m hm => h.code m (c.perm_methods_ordered.mem_iff.mpr hm) }
  · intro h
    exact {
      fieldFlags := fun f hf => h.fieldFlags f (c.perm_fields_ordered.mem_iff.mp hf)
      methodFlags := fun m hm => h.methodFlags m (c.perm_methods_ordered.mem_iff.mp hm)
      restrictions := fun r hr => h.restrictions r (mem_restrictions_ordered.mp hr)
      code := fun m hm => h.code m (c.perm_methods_ordered.mem_iff.mp hm) }

theorem Distinct.ordered (h : c.Distinct) : c.ordered.Distinct where
  definingClass_of_field f hf := h.definingClass_of_field f (c.perm_fields_ordered.mem_iff.mp hf)
  definingClass_of_method m hm := h.definingClass_of_method m (c.perm_methods_ordered.mem_iff.mp hm)
  fields := (c.perm_fields_ordered.map _).nodup_iff.mpr h.fields
  methods := (c.perm_methods_ordered.map _).nodup_iff.mpr h.methods

end ClassDef

namespace Assembly

/-! ## Additions that succeed -/

/-- Adds some classes and then some markers. -/
def addAll (classes : List ClassDef) (markers : List Marker) : Work Unit := do
  classes.forM addClassDef
  markers.forM addMarker

variable {a a' : Assembly}

/-- Work on all of a list that succeeds is work on the first of them and then on the
others. -/
theorem on_forM_cons {α : Type} {work : α → Work Unit} {x : α} {xs : List α}
    (h : ((x :: xs).forM work).on a = (.ok (), a')) :
    ∃ b, (work x).on a = (.ok (), b) ∧ (xs.forM work).on b = (.ok (), a') := by
  rw [show (x :: xs).forM work = work x >>= fun _ => xs.forM work from rfl, on_bind] at h
  split at h
  · rename_i b hfirst
    exact ⟨b, hfirst, h⟩
  · cases congrArg Prod.fst h

/-- Adding a class leaves an assembly with that class, in order. -/
theorem Gathered.of_addClassDef (h : a.Gathered) {c : ClassDef} (hadded : (addClassDef c).on a = (.ok (), a')) :
    a'.Gathered ∧ a'.opcodes = a.opcodes ∧ a'.classes.toList = a.classes.toList ++ [c.ordered] := by
  rw [on_addClassDef h.growing] at hadded
  split at hadded
  · cases congrArg Prod.fst hadded
  · rename_i hnew
    obtain rfl := congrArg Prod.snd hadded
    have hgrown := h.grow (some c.ordered) none (Entry.closed_ofClass c.ordered)
      (fun d hd => Option.some.inj hd ▸ List.Subset.refl _) (fun d hd => ⟨c, (Option.some.inj hd).symm⟩)
      (fun d hd => by cases hd; exact Bool.eq_false_iff.mpr hnew) (fun _ hm => nomatch hm)
    rw [Option.toArray_some, Option.toArray_none, Array.append_empty, ← Array.push_eq_append] at hgrown
    exact ⟨hgrown, rfl, Array.toList_push⟩

theorem of_forM_addClassDef (h : a.Gathered) {classes : List ClassDef}
    (hadded : (classes.forM addClassDef).on a = (.ok (), a')) :
    a'.Gathered ∧ a'.opcodes = a.opcodes ∧ a'.classes.toList = a.classes.toList ++ classes.map ClassDef.ordered := by
  induction classes generalizing a with
  | nil =>
    cases hadded
    exact ⟨h, rfl, (List.append_nil _).symm⟩
  | cons c classes ih =>
    obtain ⟨b, hfirst, hrest⟩ := on_forM_cons hadded
    obtain ⟨hb, hopcodes, hadds⟩ := h.of_addClassDef hfirst
    obtain ⟨ha', hopcodes', hadds'⟩ := ih hb hrest
    refine ⟨ha', hopcodes'.trans hopcodes, ?_⟩
    rw [hadds', hadds, List.append_assoc]
    rfl

/-- Adding a marker leaves the classes as they are. -/
theorem Gathered.of_addMarker (h : a.Gathered) {m : Marker} (hadded : (addMarker m).on a = (.ok (), a')) :
    a'.Gathered ∧ a'.opcodes = a.opcodes ∧ a'.classes = a.classes := by
  rw [on_addMarker h.growing] at hadded
  obtain rfl := congrArg Prod.snd hadded
  have hgrown := h.grow none (some m) (Entry.Closed.string m.text)
    (fun _ hd => nomatch hd) (fun _ hd => nomatch hd) (fun _ hd => nomatch hd)
    (fun d hd => by cases hd; exact List.mem_singleton_self _)
  rw [Option.toArray_some, Option.toArray_none, Array.append_empty, ← Array.push_eq_append] at hgrown
  exact ⟨hgrown, rfl, rfl⟩

theorem of_forM_addMarker (h : a.Gathered) {markers : List Marker}
    (hadded : (markers.forM addMarker).on a = (.ok (), a')) :
    a'.Gathered ∧ a'.opcodes = a.opcodes ∧ a'.classes = a.classes := by
  induction markers generalizing a with
  | nil =>
    cases hadded
    exact ⟨h, rfl, rfl⟩
  | cons m markers ih =>
    obtain ⟨b, hfirst, hrest⟩ := on_forM_cons hadded
    obtain ⟨hb, hopcodes, hsame⟩ := h.of_addMarker hfirst
    obtain ⟨ha', hopcodes', hsame'⟩ := ih hb hrest
    exact ⟨ha', hopcodes'.trans hopcodes, hsame'.trans hsame⟩

/-- What adding classes and markers leaves. -/
theorem gathered_of_addAll {opcodes : Opcodes} {classes : List ClassDef} {markers : List Marker}
    (hadded : (addAll classes markers).on { opcodes } = (.ok (), a)) :
    a.Gathered ∧ a.opcodes = opcodes ∧ a.classes.toList = classes.map ClassDef.ordered := by
  rw [addAll, on_bind] at hadded
  split at hadded
  · rename_i v b hclasses
    obtain ⟨hgathered, hopcodes, hadds⟩ := of_forM_addClassDef (gathered_empty opcodes) hclasses
    obtain ⟨hgathered', hopcodes', hsame⟩ := of_forM_addMarker hgathered hadded
    refine ⟨hgathered', hopcodes'.trans hopcodes, ?_⟩
    rw [hsame, hadds]
    rfl
  · cases congrArg Prod.fst hadded

/-- A file that has been built of classes and markers is written from their blueprint. -/
theorem exists_of_build {opcodes : Opcodes} {classes : List ClassDef} {markers : List Marker} {bytes : Bytes}
    (hbuild : build opcodes (addAll classes markers) = .ok (bytes, a)) :
    ∃ b : Blueprint, b.Typed ∧ b.opcodes = opcodes ∧ b.classes.Perm (classes.map ClassDef.ordered) ∧
      b.write = .ok bytes := by
  have hwhole : (do addAll classes markers; finalize; write).on { opcodes } = (.ok bytes, a) := by
    rw [build] at hbuild
    split at hbuild
    · rename_i hrun
      cases hbuild
      exact hrun
    · cases hbuild
  rw [on_bind] at hwhole
  split at hwhole
  · rename_i g hadded
    obtain ⟨hgathered, hopcodes, hclasses⟩ := gathered_of_addAll hadded
    rw [on_bind, on_finalize hgathered.growing] at hwhole
    dsimp only at hwhole
    rw [on_write (a := g.finalized) hgathered.growing.ranked_finalized] at hwhole
    have hperm : g.finalized.blueprint.classes.Perm g.classes.toList := ClassOrder.arrange_perm _
    have htyped : g.finalized.blueprint.Typed :=
      ⟨hgathered.complete, (hperm.map _).nodup_iff.mpr hgathered.distinct⟩
    exact ⟨_, htyped, hopcodes, hclasses ▸ hperm, congrArg Prod.fst hwhole⟩
  · cases congrArg Prod.fst hwhole

/-- Once additions have succeeded, the file is built if its blueprint is written. -/
theorem exists_build {opcodes : Opcodes} {work : Work Unit} (hgathered : a.Gathered)
    (hadded : work.on { opcodes } = (.ok (), a)) {bytes : Bytes}
    (hwrite : a.finalized.blueprint.write = .ok bytes) : ∃ a', build opcodes work = .ok (bytes, a') := by
  have hwhole : (do work; finalize; write).on { opcodes } = (.ok bytes, a.finalized.recordStrings) := by
    rw [on_bind, hadded]
    dsimp only
    rw [on_bind, on_finalize hgathered.growing]
    dsimp only
    rw [on_write (a := a.finalized) hgathered.growing.ranked_finalized, hwrite]
  rw [Work.on] at hwhole
  rw [build, hwhole]
  exact ⟨_, rfl⟩

/-- A file that has been built of sound classes is accepted. It is read as a whole if the
numbers of its classes are small, and if the members are told apart only then. -/
theorem toDexFile_build {opcodes : Opcodes} (hlevel : Opcodes.firstAlike ≤ opcodes.api) {classes : List ClassDef}
    {markers : List Marker} (hsound : ∀ c ∈ classes, c.Sound) {bytes : Bytes}
    (hbuild : build opcodes (addAll classes markers) = .ok (bytes, a)) (hsize : bytes.size < extentBound) :
    ∃ image, Image.ofBytes bytes = .ok image ∧
      ((∀ c ∈ classes, c.Small) → ∃ d, image.toDexFile = .ok d) ∧
      ((∀ c ∈ classes, c.Distinct) → ∀ d, image.toDexFile = .ok d → ∀ c ∈ classes, c.Small) := by
  obtain ⟨b, htyped, hopcodes, hperm, hwrite⟩ := exists_of_build hbuild
  obtain ⟨t, image, himage, -, hopens⟩ := Blueprint.opens_write htyped.ranked hwrite hsize
  have hcovers : image.opcodes.Covers b.opcodes :=
    Opcodes.covers_ofVersion (hopcodes ▸ hlevel) hopens.opcodes
  have hordered {P : ClassDef → Prop} (hkept : ∀ c ∈ classes, P c.ordered) : ∀ c ∈ b.classes, P c := fun c hc => by
    obtain ⟨d, hd, rfl⟩ := List.mem_map.mp (hperm.mem_iff.mp hc)
    exact hkept d hd
  have hsound' := hordered fun c hc => (hsound c hc).ordered
  refine ⟨image, himage, fun hsmall => ?_, fun hdistinct d hcopy c hc => ?_⟩
  · exact hopens.exists_toDexFile htyped hcovers hsound' (hordered fun c hc =>
      ClassDef.small_ordered_iff.mpr (hsmall c hc))
  · have hsettled : b.Settled := ⟨htyped, hordered fun c hc => (hdistinct c hc).ordered⟩
    have hsmall := hopens.small_of_toDexFile hsettled hcovers hsound' hcopy
    exact ClassDef.small_ordered_iff.mp (hsmall _ (hperm.mem_iff.mpr (List.mem_map_of_mem hc)))

theorem on_addAll_small : (addAll [DexFile.smallClass] DexFile.small.markers).on { opcodes := .standard } =
    (.ok (), gather DexFile.small.opcodes DexFile.small.requests) := by
  have harranged : DexFile.smallClass.arranged = DexFile.smallClass :=
    (DexFile.canonical_small.classes _ (List.mem_singleton_self _)).arranged_eq
  have hempty := gathered_empty .standard
  have hclass : (addClassDef DexFile.smallClass).on { opcodes := .standard } =
      (.ok (), gather .standard [.classDef DexFile.smallClass.view]) := by
    have hafter : gather .standard [.classDef DexFile.smallClass.view] =
        ((addClass DexFile.smallClass.view).on { opcodes := .standard }).2 := rfl
    rw [hafter, on_addClass hempty.growing, DexFile.smallClass.toClass_view, harranged]
    dsimp only
    rw [on_addClassDef hempty.growing, if_neg (by simp [defines])]
  have hmarker (m : Marker) (b : Assembly) (hb : b.Gathered) : ([m].forM addMarker).on b =
      (.ok (), b.after (.marker m)) := by
    rw [show [m].forM addMarker = addMarker m >>= fun _ => pure () from rfl, on_bind, after, Request.work,
      on_addMarker hb.growing]
    rfl
  rw [addAll, on_bind, show [DexFile.smallClass].forM addClassDef = addClassDef DexFile.smallClass >>= fun _ => pure ()
    from rfl, on_bind, hclass]
  exact hmarker _ _ (gathered_gather ..)

/-- A class with a field and a method that has a body, and a marker. -/
theorem toDexFile_build_small : (∀ c ∈ [DexFile.smallClass], c.Sound) ∧ (∀ c ∈ [DexFile.smallClass], c.Small) ∧
    (∀ c ∈ [DexFile.smallClass], c.Distinct) ∧
    ∃ bytes a image, build .standard (addAll [DexFile.smallClass] DexFile.small.markers) = .ok (bytes, a) ∧
      bytes.size < extentBound ∧ Image.ofBytes bytes = .ok image ∧ ∃ d, image.toDexFile = .ok d := by
  have hsound : ∀ c ∈ [DexFile.smallClass], c.Sound := by
    rintro c hc m hm code hcode
    cases List.mem_singleton.mp hc
    cases List.mem_singleton.mp hm
    cases hcode
    refine ⟨fun i hi => ?_, fun _ ht => nomatch ht⟩
    cases List.mem_singleton.mp hi
    exact ⟨by decide, by decide⟩
  have hsmall : ∀ c ∈ [DexFile.smallClass], c.Small := fun c hc => (DexFile.readable_small c hc).small
  have hgathered := gathered_gather DexFile.small.opcodes DexFile.small.requests
  obtain ⟨bytes, hwrite, hsize⟩ := DexFile.exists_write_small DexFile.canonical_small.settled
    (DexFile.canonical_small.classes_blueprint.trans (List.perm_singleton.mp (ClassOrder.arrange_perm _)))
    DexFile.canonical_small.has_iff DexFile.small.opcodes_blueprint
  obtain ⟨a, hbuild⟩ := exists_build hgathered on_addAll_small hwrite
  obtain ⟨image, himage, hreads, -⟩ := toDexFile_build (by decide) hsound hbuild hsize
  exact ⟨hsound, hsmall, DexFile.canonical_small.distinct, bytes, a, image, hbuild, hsize, himage, hreads hsmall⟩

end Assembly

end Dalvik
