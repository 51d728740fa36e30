import Dalvik.Proofs.Assembly.Markers
import Dalvik.Proofs.Assembly.Written
import Dalvik.Proofs.Class.Copies

/-!
# Written files are read as they were written

A file that is added to an assembly is the requests for its classes and markers
(`Assembly.addFile_eq`), and what is written of it is read class by class
(`Blueprint.Opens.toDexFile_eq`). So a file in the form in which files are given back
(`DexFile.Canonical`), written and read again, has its classes and its markers as
before; only the classes come in the order of the file. It is written if it meets what
the writers demand (`DexFile.toDexFile_assemble`).
-/

namespace Dalvik

open Assembly

/-! ## The requests of a file -/

namespace DexFile

/-- What an assembly is asked for when a file is added to it. -/
def requests (d : DexFile) : List Request :=
  d.classes.map (fun c => .classDef c.view) ++ d.markers.map .marker

/-- What the classes and the markers of a file are made of. -/
def entries (d : DexFile) : List Entry :=
  d.classes.flatMap Entry.ofClass ++ d.markers.map fun m => .string m.text

end DexFile

namespace Assembly

theorem ofResult_ok_bind {α β : Type} (v : α) (next : α → Work β) : ofResult (.ok v) >>= next = next v :=
  pure_bind v next

theorem addClassesFrom_eq (classes : List ClassDef) {index count : Nat} (hcount : index + count = classes.length) :
    addClassesFrom (Items.ofList (classes.map ClassDef.view)) index count =
      forM ((classes.drop index).map fun c => Request.classDef c.view) Request.work := by
  induction count generalizing index with
  | zero =>
    rw [List.drop_eq_nil_of_le (by omega)]
    rfl
  | succ count ih =>
    have hlt : index < classes.length := by omega
    have hget : (Items.ofList (classes.map ClassDef.view)).get index = .ok classes[index].view := by
      simp [Items.ofList, List.getElem?_eq_getElem hlt]
    rw [addClassesFrom, hget, ofResult_ok_bind, ih (by omega), List.drop_eq_getElem_cons hlt, List.map_cons]
    rfl

/-- Adding a file is to be asked for its classes and then for its markers. -/
theorem addFile_eq (d : DexFile) : addFile d.view = forM d.requests Request.work := by
  have hmarkers : forM d.markers addMarker = forM (d.markers.map Request.marker) Request.work := by
    rw [List.forM_map]
    rfl
  have hcount : (Items.ofList (d.classes.map ClassDef.view)).count = d.classes.length := List.length_map _
  rw [DexFile.requests, List.forM_append, ← hmarkers, addFile]
  dsimp only [DexFile.view]
  rw [hcount, addClassesFrom_eq d.classes (Nat.zero_add _), ofResult_ok_bind]
  rfl

/-- The class that is added is the copy of what is at hand, in order. -/
theorem Request.class?_view (c : ClassDef) : (Request.classDef c.view).class? = some c.arranged.ordered := by
  rw [class?, c.toClass_view]
  rfl

/-- Requests for classes and markers of a file succeed if no two classes have one
type. -/
theorem on_forM_work (opcodes : Opcodes) {requests : List Request}
    (hkinds : ∀ r ∈ requests, (∃ c : ClassDef, r = .classDef c.view) ∨ ∃ m, r = .marker m)
    (hdistinct : (addedTypes requests).Nodup) :
    (forM requests Request.work).on { opcodes } = (.ok (), gather opcodes requests) := by
  -- From the back: the last request meets what all requests before it have gathered.
  induction requests using List.reverseRecOn with
  | nil => rfl
  | append_singleton requests r ih =>
    have hbefore := nodup_of_concat hdistinct
    have hgathered := gathered_gather opcodes requests
    rw [List.forM_append, on_bind, ih (fun r hr => hkinds r (List.mem_append_left _ hr)) hbefore]
    have hlast : (forM [r] Request.work) = r.work := by
      rw [List.forM_cons, List.forM_nil]
      exact bind_pure_unit
    have hafter : gather opcodes (requests ++ [r]) = (r.work.on (gather opcodes requests)).2 := by
      rw [gather, List.foldl_append]
      rfl
    have hsucceeds : (r.work.on (gather opcodes requests)).1 = .ok () := by
      rcases hkinds r (List.mem_append_right _ (List.mem_singleton_self r)) with ⟨c, rfl⟩ | ⟨m, rfl⟩
      · have hnew : (gather opcodes requests).defines c.arranged.ordered.type = false :=
          defines_eq_false (classes_gather opcodes hbefore) hdistinct (Request.class?_view c)
        have htype : c.arranged.ordered.type = c.arranged.type := rfl
        rw [Request.work, on_addClass hgathered.growing, c.toClass_view]
        dsimp only
        rw [on_addClassDef hgathered.growing, ← htype, hnew]
        rfl
      · rw [Request.work, on_addMarker hgathered.growing]
    dsimp only
    rw [hlast, hafter, ← hsucceeds]

end Assembly

namespace DexFile

theorem filterMap_class? (d : DexFile) :
    d.requests.filterMap Request.class? = d.classes.map fun c => c.arranged.ordered := by
  have hmarkers : (d.markers.map Request.marker).filterMap Request.class? = [] :=
    List.filterMap_eq_nil_iff.mpr (List.forall_mem_map.mpr fun m _ => rfl)
  rw [requests, List.filterMap_append, hmarkers, List.append_nil, List.filterMap_map, ← List.filterMap_eq_map]
  exact List.filterMap_congr fun c _ => Request.class?_view c

theorem addedTypes_requests (d : DexFile) : addedTypes d.requests = d.classes.map (·.type) := by
  rw [addedTypes, filterMap_class?, List.map_map]
  rfl

theorem opcodes_blueprint (d : DexFile) : (gather d.opcodes d.requests).finalized.blueprint.opcodes = d.opcodes :=
  opcodes_gather d.opcodes d.requests

/-- The entries that adding a file makes whose classes are added as they are. -/
theorem has_iff_of_added {d : DexFile} (htypes : (d.classes.map (·.type)).Nodup)
    (hadded : ∀ c ∈ d.classes, c.arranged.ordered = c) (e : Entry) :
    (gather d.opcodes d.requests).finalized.pools.Has e ↔ e ∈ d.entries := by
  have hclasses : (d.classes.map fun c => Request.classDef c.view).flatMap Request.entries =
      d.classes.flatMap Entry.ofClass := by
    rw [List.flatMap_map]
    refine List.flatMap_congr fun c hc => ?_
    rw [Request.entries, Request.class?_view, hadded c hc]
    exact List.append_nil _
  have hmarkers : (d.markers.map Request.marker).flatMap Request.entries = d.markers.map fun m => .string m.text := by
    rw [List.flatMap_map, List.map_eq_flatMap]
    rfl
  rw [finalized, Pools.has_finalized, has_gather d.opcodes (d.addedTypes_requests ▸ htypes), requests,
    List.flatMap_append, hclasses, hmarkers, entries]

/-- A file whose classes have different types is made into what its finalized assembly
is written as. -/
theorem assemble_view {d : DexFile} (htypes : (d.classes.map (·.type)).Nodup) :
    d.view.assemble = (gather d.opcodes d.requests).finalized.blueprint.write := by
  have hkinds : ∀ r ∈ d.requests, (∃ c : ClassDef, r = .classDef c.view) ∨ ∃ m, r = .marker m := by
    intro r hr
    rcases List.mem_append.mp hr with hr | hr
    · obtain ⟨c, -, rfl⟩ := List.mem_map.mp hr
      exact .inl ⟨c, rfl⟩
    · obtain ⟨m, -, rfl⟩ := List.mem_map.mp hr
      exact .inr ⟨m, rfl⟩
  have hadded := on_forM_work d.opcodes hkinds (d.addedTypes_requests ▸ htypes)
  rw [← addFile_eq] at hadded
  have hgathered := gathered_gather d.opcodes d.requests
  have hwhole : (do addFile d.view; finalize; Assembly.write).on { opcodes := d.opcodes } =
      ((gather d.opcodes d.requests).finalized.blueprint.write, (gather d.opcodes d.requests).finalized.recordStrings) := by
    rw [on_bind, hadded]
    dsimp only
    rw [on_bind, on_finalize hgathered.growing]
    exact on_write hgathered.growing.ranked_finalized
  have hopcodes : d.view.opcodes = d.opcodes := rfl
  rw [Work.on] at hwhole
  rw [FileView.assemble, hopcodes, build, hwhole]
  cases (gather d.opcodes d.requests).finalized.blueprint.write <;> rfl

end DexFile

/-! ## Files in the form of a file -/

theorem ClassDef.Sorted.ordered_eq {c : ClassDef} (h : c.Sorted) : c.ordered = c := by
  rw [ordered, sortedBy_of_pairwise h.staticFields, sortedBy_of_pairwise h.instanceFields,
    sortedBy_of_pairwise h.directMethods, sortedBy_of_pairwise h.virtualMethods]

theorem ClassDef.Canonical.arranged_eq {c : ClassDef} (h : c.Canonical) : c.arranged = c := by
  have hfield : ∀ f ∈ c.fields, f.arranged = f := fun f hf => by
    rw [FieldDef.arranged, (h.fieldAnnotations f hf).map_arranged]
  have hmethod : ∀ m ∈ c.methods, m.arranged = m := fun m hm => by
    rw [MethodDef.arranged, (h.methodAnnotations m hm).map_arranged]
  have hstatic : c.staticFields.map FieldDef.arranged = c.staticFields :=
    map_eq_self fun f hf => hfield f (List.mem_append_left _ hf)
  have hinstance : c.instanceFields.map FieldDef.arranged = c.instanceFields :=
    map_eq_self fun f hf => hfield f (List.mem_append_right _ hf)
  have hdirect : c.directMethods.map MethodDef.arranged = c.directMethods :=
    map_eq_self fun m hm => hmethod m (List.mem_append_left _ hm)
  have hvirtual : c.virtualMethods.map MethodDef.arranged = c.virtualMethods :=
    map_eq_self fun m hm => hmethod m (List.mem_append_right _ hm)
  rw [arranged, h.annotations.map_arranged, hstatic, hinstance, hdirect, hvirtual]

/-- A file in the form in which files are given back, but for the order of its
classes. -/
structure DexFile.Canonical (d : DexFile) : Prop where
  types : (d.classes.map (·.type)).Nodup
  distinct : ∀ c ∈ d.classes, c.Distinct
  sorted : ∀ c ∈ d.classes, c.Sorted
  classes : ∀ c ∈ d.classes, c.Canonical
  markers : d.markers.Pairwise fun m n => Utf16.compare m.text n.text = .lt
  markerObjects : ∀ m ∈ d.markers, Marker.isObject m.content.toList = true
  /-- No other string of the file holds a marker. -/
  strings : ∀ s, Entry.string s ∈ d.classes.flatMap Entry.ofClass → ∀ m, Marker.parse? s = some m → m ∈ d.markers

/-- What the readers demand of a file. -/
def DexFile.Readable (d : DexFile) : Prop :=
  ∀ c ∈ d.classes, c.Readable

/-- What the writers demand of a file. -/
structure DexFile.Writable (d : DexFile) : Prop where
  types : Entry.Narrow d.entries .type
  protos : Entry.Narrow d.entries .proto
  fields : Entry.Narrow d.entries .field
  methods : Entry.Narrow d.entries .method
  code : ∀ c ∈ d.classes, ∀ m ∈ c.methods, ∀ code ∈ m.code, code.Writable d.opcodes d.entries

namespace DexFile.Canonical

variable {d : DexFile} (h : d.Canonical)

include h

/-- A class of the file is added as it is. -/
theorem added_eq {c : ClassDef} (hc : c ∈ d.classes) : c.arranged.ordered = c := by
  rw [(h.classes c hc).arranged_eq, (h.sorted c hc).ordered_eq]

theorem classes_blueprint :
    (gather d.opcodes d.requests).finalized.blueprint.classes = ClassOrder.arrange d.classes := by
  have hsame : (d.classes.map fun c => c.arranged.ordered) = d.classes :=
    map_eq_self fun c hc => h.added_eq hc
  show ClassOrder.arrange (gather d.opcodes d.requests).classes.toList = _
  rw [classes_gather d.opcodes (d.addedTypes_requests ▸ h.types), d.filterMap_class?, hsame]

theorem mem_classes_blueprint {c : ClassDef} :
    c ∈ (gather d.opcodes d.requests).finalized.blueprint.classes ↔ c ∈ d.classes := by
  rw [h.classes_blueprint, (ClassOrder.arrange_perm d.classes).mem_iff]

theorem settled : (gather d.opcodes d.requests).finalized.blueprint.Settled where
  toComplete := (gathered_gather d.opcodes d.requests).complete
  types := by
    rw [h.classes_blueprint]
    exact ((ClassOrder.arrange_perm d.classes).map _).nodup_iff.mpr h.types
  distinct c hc := h.distinct c (h.mem_classes_blueprint.mp hc)

/-- The entries that adding the file makes. -/
theorem has_iff (e : Entry) : (gather d.opcodes d.requests).finalized.pools.Has e ↔ e ∈ d.entries :=
  DexFile.has_iff_of_added h.types (fun _ hc => h.added_eq hc) e

/-- The markers among the strings of the file are those that were added. -/
theorem markers_eq :
    (gather d.opcodes d.requests).finalized.pools.strings.sortedKeys.filterMap Marker.parse? = d.markers := by
  have hr := (gathered_gather d.opcodes d.requests).growing.ranked_finalized
  -- Both lists ascend, so it is enough that they have the same markers.
  refine eq_of_pairwise_lt Marker.text Utf16.compare (List.pairwise_filterMap.mpr ?_) h.markers fun m => ?_
  · refine hr.strings.ascending.imp fun {s t} hlt m hm n hn => ?_
    rw [← (Marker.parse?_eq_some_iff.mp hm).1, ← (Marker.parse?_eq_some_iff.mp hn).1, ← SortKey.compare_ofString]
    exact hlt
  · rw [List.mem_filterMap]
    constructor
    · rintro ⟨s, hs, hm⟩
      rcases List.mem_append.mp ((h.has_iff (.string s)).mp (hr.strings.mem_sortedKeys.mp hs)) with hclass | hmarker
      · exact h.strings s hclass m hm
      · obtain ⟨n, hn, heq⟩ := List.mem_map.mp hmarker
        injection heq with htext
        have hfound : Marker.parse? s = some n := Marker.parse?_eq_some_iff.mpr ⟨htext.symm, h.markerObjects n hn⟩
        rwa [Option.some.inj (hm.symm.trans hfound)]
    · intro hm
      exact ⟨m.text, hr.strings.mem_sortedKeys.mpr
          ((h.has_iff _).mpr (List.mem_append_right _ (List.mem_map_of_mem hm))),
        Marker.parse?_eq_some_iff.mpr ⟨rfl, h.markerObjects m hm⟩⟩

/-- The file meets the demands of the writers. -/
theorem demanded (hwritable : d.Writable) :
    (gather d.opcodes d.requests).finalized.blueprint.Demanded d.entries where
  has e := (h.has_iff e).mp
  types := hwritable.types
  protos := hwritable.protos
  fields := hwritable.fields
  methods := hwritable.methods
  sorted c hc := h.sorted c (h.mem_classes_blueprint.mp hc)
  code c hc m hm code hcode := by
    rw [d.opcodes_blueprint]
    exact hwritable.code c (h.mem_classes_blueprint.mp hc) m hm code hcode

/-- A file that meets the demands of the writers is written, in no more bytes than it has
room for. -/
theorem exists_assemble_le (hwritable : d.Writable) :
    ∃ bytes, d.view.assemble = .ok bytes ∧ bytes.size ≤ Blueprint.fileRoom d.entries d.classes := by
  obtain ⟨bytes, hwrite, hle⟩ := h.settled.exists_write_le (h.demanded hwritable)
  rw [h.classes_blueprint, Blueprint.fileRoom_eq_of_perm _ (ClassOrder.arrange_perm d.classes)] at hle
  exact ⟨bytes, (assemble_view h.types).trans hwrite, hle⟩

end DexFile.Canonical

/-- The content of a written file. -/
theorem Blueprint.Opens.toDexFile_eq {b : Blueprint} {t : DataTables} {image : Image} (h : b.Opens t image)
    (hs : b.Settled) (hcovers : image.opcodes.Covers b.opcodes) (hreadable : ∀ c ∈ b.classes, c.Readable) :
    image.toDexFile = .ok ⟨image.opcodes, b.classes.map ClassDef.kept,
      b.pools.strings.sortedKeys.filterMap Marker.parse?⟩ := by
  have hclasses : (image.view.classes.andThen ClassView.toClass).collect = .ok (b.classes.map ClassDef.kept) := by
    refine Result.collect_eq ?_ fun i c hc => ?_
    · show image.header.classDefs.size.toNat = _
      rw [h.classDefs, h.identified.classes.size_eq, List.length_map, List.length_map]
    · obtain ⟨original, horiginal, rfl⟩ := Option.map_eq_some_iff.mp ((List.getElem?_map ..).symm.trans hc)
      obtain ⟨s, hat, rfl, hshows⟩ := h.exists_shown hs horiginal
      show ((StoredClass.at? s.image (UInt32.ofNat i)).map StoredClass.view >>= _) = _
      rw [hat]
      exact hshows.toClass_eq_kept hs hcovers (hreadable original (List.mem_of_getElem? horiginal))
  have hmarkers : image.view.markers = .ok (b.pools.strings.sortedKeys.filterMap Marker.parse?) :=
    h.markers_eq hs.ranked
  rw [Image.toDexFile, FileView.toDexFile, hclasses, Result.ok_bind, hmarkers]
  rfl

/-- A file in the form of a file, with opcodes of the first level that is read alike or a
later one, is written if it meets the demands of the writers, and whatever it is written
as is read as it was: its classes come in the order of the file. -/
theorem DexFile.toDexFile_assemble {d : DexFile} (hlevel : Opcodes.firstAlike ≤ d.opcodes.api) (hd : d.Canonical)
    (hreadable : d.Readable) : (d.Writable → ∃ bytes, d.view.assemble = .ok bytes) ∧
    ∀ bytes, d.view.assemble = .ok bytes → bytes.size < extentBound →
      ∃ image, Image.ofBytes bytes = .ok image ∧ Opcodes.ofVersion d.opcodes.version = .ok image.opcodes ∧
        image.toDexFile = .ok ⟨image.opcodes, ClassOrder.arrange d.classes, d.markers⟩ ∧
        (ClassOrder.arrange d.classes).Perm d.classes := by
  rw [assemble_view hd.types]
  refine ⟨fun hwritable => hd.settled.exists_write (hd.demanded hwritable), fun bytes hwrite hsize => ?_⟩
  obtain ⟨t, image, himage, -, hopens⟩ := Blueprint.opens_write hd.settled.ranked hwrite hsize
  have hversion : Opcodes.ofVersion d.opcodes.version = .ok image.opcodes := d.opcodes_blueprint ▸ hopens.opcodes
  have hcovers : image.opcodes.Covers (gather d.opcodes d.requests).finalized.blueprint.opcodes := by
    rw [d.opcodes_blueprint]
    exact Opcodes.covers_ofVersion hlevel hversion
  have hread := hopens.toDexFile_eq hd.settled hcovers fun c hc => hreadable c (hd.mem_classes_blueprint.mp hc)
  have hkept : (gather d.opcodes d.requests).finalized.blueprint.classes.map ClassDef.kept =
      ClassOrder.arrange d.classes := by
    refine (List.map_congr_left fun c hc => ?_).trans ((List.map_id _).trans hd.classes_blueprint)
    exact (hd.classes c (hd.mem_classes_blueprint.mp hc)).kept_eq
  have hmarkers : (gather d.opcodes d.requests).finalized.blueprint.pools.strings.sortedKeys.filterMap Marker.parse? =
      d.markers := hd.markers_eq
  rw [hkept, hmarkers] at hread
  exact ⟨image, himage, hversion, hread, ClassOrder.arrange_perm d.classes⟩

/-! ## A small file -/

namespace DexFile

/-- The body of a method that does nothing. -/
def smallCode : Code where
  registers := 0
  instructions := [⟨⟨"return-void", 0x0e, .none, .f10x, [], none, none, none⟩, .f10x⟩]

/-- A method that does nothing. -/
def smallMethod : MethodDef where
  definingClass := "LA;"
  name := "m"
  parameters := []
  returnType := "V"
  flags := ⟨8⟩
  code := some smallCode

/-- A class with a field and a method. -/
def smallClass : ClassDef where
  type := "LA;"
  flags := ⟨1⟩
  superclass := some "Ljava/lang/Object;"
  interfaces := []
  sourceFile := none
  annotations := []
  staticFields := []
  instanceFields := [{ definingClass := "LA;", name := "f", type := "I", flags := ⟨1⟩ }]
  directMethods := [smallMethod]
  virtualMethods := []

/-- A file with one class and one marker. -/
def small : DexFile where
  opcodes := .standard
  classes := [smallClass]
  markers := [⟨.d8, "\x7b\x7d"⟩]

theorem entries_small : small.entries =
    [.string "LA;", .type "LA;", .string "Ljava/lang/Object;", .type "Ljava/lang/Object;", .string "LA;", .type "LA;",
      .string "f", .string "I", .type "I", .field ⟨"LA;", "f", "I"⟩, .string "LA;", .type "LA;", .string "m",
      .string "V", .string "V", .type "V", .proto ⟨[], "V"⟩, .method ⟨"LA;", "m", [], "V"⟩,
      .string "~~D8\x7b\x7d"] := by
  decide +kernel

theorem readable_small : small.Readable := fun c hc => by
  cases List.mem_singleton.mp hc
  refine ⟨by decide, by decide, by decide, fun m hm code hcode => ?_⟩
  cases List.mem_singleton.mp hm
  cases hcode
  exact {
    instructions := fun i hi => by
      cases List.mem_singleton.mp hi
      exact ⟨by decide, fun _ hslot => nomatch hslot⟩
    tries := fun _ ht => nomatch ht
    debug := ⟨.singleton _, fun _ hitem => nomatch hitem⟩
    line_lt := by decide }

theorem canonical_small : small.Canonical where
  types := by decide
  distinct c hc := by
    cases List.mem_singleton.mp hc
    exact ⟨by decide, by decide, by decide, by decide⟩
  sorted c hc := by
    cases List.mem_singleton.mp hc
    exact ⟨by decide, by decide, by decide, by decide⟩
  classes c hc := by
    cases List.mem_singleton.mp hc
    have hnone : AnnotationItem.Canonical [] := ⟨fun _ h => (nomatch h), .nil⟩
    exact {
      annotations := hnone
      fieldAnnotations := fun f hf => by
        cases List.mem_singleton.mp hf
        exact hnone
      methodAnnotations := fun m hm => by
        cases List.mem_singleton.mp hm
        exact hnone
      parameterAnnotations := fun m hm => by
        cases List.mem_singleton.mp hm
        exact fun _ hp => nomatch hp
      parameterNames := by decide
      code := fun m hm code hcode => by
        cases List.mem_singleton.mp hm
        cases hcode
        exact ⟨by decide, by decide⟩
      staticValues := fun _ _ h => nomatch h
      values := by decide
      instanceValues := by decide
      hidden := by decide
      domains := by decide }
  markers := by decide
  markerObjects := by decide
  strings s hs m hm := by
    have hnone : ∀ s ∈ ["LA;", "Ljava/lang/Object;", "f", "I", "m", "V"], Marker.parse? s = none := by decide
    have hentries : small.classes.flatMap Entry.ofClass = small.entries.dropLast := by decide +kernel
    rw [hentries, entries_small] at hs
    rw [hnone s (by simp at hs ⊢; tauto)] at hm
    cases hm

theorem writable_small : small.Writable where
  types := Entry.narrow_of_length_le (fun _ _ => Entry.type.inj) (entries_small ▸ by decide)
  protos := Entry.narrow_of_length_le (fun _ _ => Entry.proto.inj) (entries_small ▸ by decide)
  fields := Entry.narrow_of_length_le (fun _ _ => Entry.field.inj) (entries_small ▸ by decide)
  methods := Entry.narrow_of_length_le (fun _ _ => Entry.method.inj) (entries_small ▸ by decide)
  code c hc m hm code hcode := by
    cases List.mem_singleton.mp hc
    cases List.mem_singleton.mp hm
    cases hcode
    exact {
      instructions := fun i hi => by
        cases List.mem_singleton.mp hi
        exact ⟨by decide, by decide, fun _ hr => nomatch hr⟩
      aligned := ⟨nofun, trivial⟩
      tries := by decide
      catchAll := fun _ ht => nomatch ht
      handlers := by decide
      debug := .nil }

theorem fileRoom_small : Blueprint.fileRoom small.entries [smallClass] < extentBound := by
  rw [entries_small]
  decide +kernel

/-- What has the class and the entries of the small file is written. -/
theorem exists_write_small {b : Blueprint} (hs : b.Settled) (hclasses : b.classes = [smallClass])
    (hhas : ∀ e, b.pools.Has e ↔ e ∈ small.entries) (hopcodes : b.opcodes = .standard) :
    ∃ bytes, b.write = .ok bytes ∧ bytes.size < extentBound := by
  have hd : b.Demanded small.entries := {
    has := fun e => (hhas e).mp
    types := writable_small.types
    protos := writable_small.protos
    fields := writable_small.fields
    methods := writable_small.methods
    sorted := by
      rw [hclasses]
      exact canonical_small.sorted
    code := by
      rw [hclasses, hopcodes]
      exact writable_small.code }
  obtain ⟨bytes, hwrite, hle⟩ := hs.exists_write_le hd
  exact ⟨bytes, hwrite, Nat.lt_of_le_of_lt hle (hclasses ▸ fileRoom_small)⟩

/-- A class with a field and a method that has a body, and a marker. -/
theorem toDexFile_assemble_small : small.Canonical ∧ small.Readable ∧ small.Writable ∧
    ∃ bytes image, small.view.assemble = .ok bytes ∧ bytes.size < extentBound ∧ Image.ofBytes bytes = .ok image ∧
      image.toDexFile = .ok ⟨image.opcodes, [smallClass], small.markers⟩ := by
  have harranged : ClassOrder.arrange small.classes = [smallClass] :=
    List.perm_singleton.mp (ClassOrder.arrange_perm small.classes)
  obtain ⟨hwrites, hreads⟩ := toDexFile_assemble (by decide) canonical_small readable_small
  obtain ⟨bytes, hwrite⟩ := hwrites writable_small
  have hsize : bytes.size < extentBound := by
    obtain ⟨bytes', hwrite', hle⟩ := canonical_small.exists_assemble_le writable_small
    obtain rfl : bytes' = bytes := Except.ok.inj (hwrite'.symm.trans hwrite)
    exact Nat.lt_of_le_of_lt hle fileRoom_small
  obtain ⟨image, himage, -, hread, -⟩ := hreads bytes hwrite hsize
  exact ⟨canonical_small, readable_small, writable_small, bytes, image, hwrite, hsize, himage, harranged ▸ hread⟩

end DexFile

end Dalvik
