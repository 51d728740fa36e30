import Dalvik.Proofs.Assembly.Additions
import Dalvik.Proofs.Assembly.Legibility
import Dalvik.Proofs.Assembly.Markers
import Mathlib.Data.List.Nodup

/-!
# Markers that have been added are found

The search for markers in an image finds just those among its strings, if the strings can
be read and are in order (`Image.markers_eq_of_collect`). No call takes an entry out of an
assembly (`Assembly.keeps_call`), so the string of a marker that has been added is among
those that are written. Hence a marker is found once in a file that reads back, however
often it has been added (`Assembly.markers_found`).
-/

namespace Dalvik

/-! ## Markers among strings -/

/-- Strings in order hold a marker at most once. -/
theorem Marker.nodup_filterMap_parse? {strings : List String}
    (hsorted : strings.Pairwise fun a b => Utf16.compare a b = .lt) : (strings.filterMap parse?).Nodup := by
  have hnodup : strings.Nodup := hsorted.imp fun {a b} hlt hsame => by
    subst hsame
    exact Utf16.compare_ne_lt_of_startsWith (String.startsWith_string_iff.mpr (List.prefix_refl _)) hlt
  refine List.Nodup.filterMap (fun s t m hs ht => ?_) hnodup
  rw [(parse?_eq_some_iff.mp hs).1, (parse?_eq_some_iff.mp ht).1]

/-- A marker with an object is found once among strings in order, if its text is one of
them. -/
theorem Marker.count_filterMap_parse? {strings : List String}
    (hsorted : strings.Pairwise fun a b => Utf16.compare a b = .lt) {m : Marker} (hm : m.text ∈ strings)
    (hobject : isObject m.content.toList = true) : (strings.filterMap parse?).count m = 1 :=
  List.count_eq_one_of_mem (nodup_filterMap_parse? hsorted)
    (List.mem_filterMap.mpr ⟨m.text, hm, parse?_eq_some_iff.mpr ⟨rfl, hobject⟩⟩)

namespace Assembly

variable {a b : Assembly}

/-! ## What calls leave -/

/-- Work keeps an assembly reliable, and takes no entry out of it. -/
def Keeps {α : Type} (work : Work α) : Prop :=
  ∀ a : Assembly, a.Reliable → (work.on a).2.Reliable ∧ ∀ e, a.pools.Has e → (work.on a).2.pools.Has e

namespace Keeps

theorem ofResult {α : Type} (r : Result α) : Keeps (Assembly.ofResult r) := fun _ h => ⟨h, fun _ he => he⟩

theorem bind {α β : Type} {work : Work α} {next : α → Work β} (hwork : Keeps work) (hnext : ∀ v, Keeps (next v)) :
    Keeps (work >>= next) := fun a h => by
  obtain ⟨hreliable, hkept⟩ := hwork a h
  rw [on_bind]
  split
  · rename_i v b hfirst
    rw [hfirst] at hreliable hkept
    obtain ⟨hreliable', hkept'⟩ := hnext v b hreliable
    exact ⟨hreliable', fun e he => hkept' e (hkept e he)⟩
  · rename_i hfirst
    rw [hfirst] at hreliable hkept
    exact ⟨hreliable, hkept⟩

theorem forM {α : Type} {work : α → Work Unit} (hwork : ∀ x, Keeps (work x)) (xs : List α) : Keeps (xs.forM work) := by
  induction xs with
  | nil => exact ofResult (.ok ())
  | cons x xs ih => exact (hwork x).bind fun _ => ih

theorem request (r : Request) : Keeps r.work := fun a h => ⟨h.after r, fun e he => by
  show (a.after r).pools.Has e
  rcases h with h | h
  · rw [after_eq h.growing]
    split
    · exact he
    · exact h.growing.has_insertAll.mpr (.inr he)
  · rwa [after_eq_self h.ranked]⟩

theorem addClassesFrom (classes : Items ClassView) (index count : Nat) :
    Keeps (Assembly.addClassesFrom classes index count) := by
  induction count generalizing index with
  | zero => exact ofResult (.ok ())
  | succ count ih =>
    exact (ofResult _).bind fun view => (request (.classDef view)).bind fun _ => ih (index + 1)

theorem addMarkers (markers : List Marker) : Keeps (markers.forM addMarker) :=
  forM (fun m => request (.marker m)) markers

theorem addFile (file : FileView) : Keeps (Assembly.addFile file) :=
  (addClassesFrom _ _ _).bind fun _ => (ofResult _).bind addMarkers

end Keeps

/-- What does not change the keys of the pools takes no entry out of them. -/
theorem Unchanged.has (h : Unchanged a b) {e : Entry} (he : a.pools.Has e) : b.pools.Has e := by
  have hkeys := h.keys
  simp only [Pools.keys, Pools.Keys.mk.injEq] at hkeys
  cases e <;> simp only [Pools.Has, hkeys] at he ⊢ <;> exact he

/-- No call takes an entry out of an assembly. -/
theorem keeps_call (call : Call) : Keeps call.work := by
  cases call with
  | ask r => exact .request r
  | add file => exact .addFile file
  | finalize =>
    refine fun a h => ⟨h.on_finalize, fun e he => ?_⟩
    rcases h with h | h
    · rw [Call.work, h.sealed_finalize.1]
      exact (Pools.has_finalized e).mpr he
    · rwa [Call.work, finalize_eq_self h.ranked]
  | write =>
    refine fun a h => ?_
    rw [Call.work, on_discard]
    exact ⟨h.on_write.1, fun e he => h.on_write.2.has he⟩

theorem has_foldl (h : a.Reliable) (calls : List Call) {e : Entry} (he : a.pools.Has e) :
    (calls.foldl (fun a call => (call.work.on a).2) a).pools.Has e := by
  induction calls generalizing a with
  | nil => exact he
  | cons call calls ih =>
    obtain ⟨hreliable, hkept⟩ := keeps_call call a h
    exact ih hreliable (hkept e he)

/-! ## Markers that are added -/

/-- A call adds a marker: it asks for this marker, or adds a file that has it. -/
inductive Marks (a : Assembly) : Call → Marker → Prop where
  | ask {m : Marker} (hadded : ((addMarker m).on a).1 = .ok ()) : Marks a (.ask (.marker m)) m
  | add {file : FileView} {markers : List Marker} {m : Marker} (hmarkers : file.markers = .ok markers)
    (hm : m ∈ markers) (hadded : ((addFile file).on a).1 = .ok ()) : Marks a (.add file) m

/-- One of some calls has added a marker to a new assembly. -/
def Marked (opcodes : Opcodes) (calls : List Call) (m : Marker) : Prop :=
  ∃ before call after, calls = before ++ call :: after ∧ (history opcodes before).Marks call m

/-- Where a marker is added there is its string. -/
theorem has_of_addMarker (h : a.Reliable) {m : Marker} (hadded : ((addMarker m).on a).1 = .ok ()) :
    ((addMarker m).on a).2.pools.Has (.string m.text) := by
  rcases h with h | h
  · rw [on_addMarker h.growing]
    exact h.growing.has_insertAll.mpr (.inl (List.mem_singleton_self _))
  · obtain ⟨e, he⟩ := intern_fails h.ranked (.string m.text) []
    rw [addMarker, on_bind, on_discard, he] at hadded
    cases hadded

theorem has_of_addMarkers (h : a.Reliable) {markers : List Marker}
    (hadded : ((markers.forM addMarker).on a).1 = .ok ()) :
    ∀ m ∈ markers, ((markers.forM addMarker).on a).2.pools.Has (.string m.text) := by
  induction markers generalizing a with
  | nil => exact fun m hm => nomatch hm
  | cons m markers ih =>
    obtain ⟨b, hb⟩ : ∃ b, ((m :: markers).forM addMarker).on a = (.ok (), b) := ⟨_, Prod.ext hadded rfl⟩
    obtain ⟨c, hfirst, hrest⟩ := on_forM_cons hb
    obtain ⟨hreliable, -⟩ := Keeps.request (.marker m) a h
    rw [Request.work, hfirst] at hreliable
    have hm : c.pools.Has (.string m.text) := by
      have hm := has_of_addMarker h (m := m) (congrArg Prod.fst hfirst)
      rwa [hfirst] at hm
    rw [hb]
    refine List.forall_mem_cons.mpr ⟨?_, ?_⟩
    · have hkept := (Keeps.addMarkers markers c hreliable).2 _ hm
      rwa [hrest] at hkept
    · have hothers := ih hreliable (congrArg Prod.fst hrest)
      rwa [hrest] at hothers

/-- Where a file is added there are the strings of its markers. -/
theorem has_of_addFile (h : a.Reliable) {file : FileView} {markers : List Marker}
    (hmarkers : file.markers = .ok markers) (hadded : ((addFile file).on a).1 = .ok ()) {m : Marker} (hm : m ∈ markers) :
    ((addFile file).on a).2.pools.Has (.string m.text) := by
  -- The classes of the file come first; the markers are added to what these leave.
  obtain ⟨hreliable, -⟩ := Keeps.addClassesFrom file.classes 0 file.classes.count a h
  rw [addFile, on_bind] at hadded ⊢
  split at hadded
  · rename_i b hclasses
    rw [hclasses] at hreliable
    rw [on_bind, on_ofResult, hmarkers] at hadded ⊢
    exact has_of_addMarkers hreliable hadded m hm
  · cases hadded

theorem Marks.has (h : a.Reliable) {call : Call} {m : Marker} (hmarks : a.Marks call m) :
    (call.work.on a).2.pools.Has (.string m.text) := by
  cases hmarks with
  | ask hadded => exact has_of_addMarker h hadded
  | add hmarkers hm hadded => exact has_of_addFile h hmarkers hadded hm

/-- The strings of all markers that have been added are there. -/
theorem Marked.has {opcodes : Opcodes} {calls : List Call} {m : Marker} (h : Marked opcodes calls m) :
    (history opcodes calls).pools.Has (.string m.text) := by
  obtain ⟨before, call, after, rfl, hmarks⟩ := h
  have hreliable := reliable_history opcodes before
  rw [history, List.foldl_append, List.foldl_cons]
  exact has_foldl (hreliable.on_call call) after (hmarks.has hreliable)

/-! ## Files -/

/-- The search for markers finds those among the strings of an image, if these can be read and
are in order. In a file that reads back it finds each marker that has been added and has an
object, and finds it once; a file of fewer bytes than `extentBound` does read back. -/
theorem markers_found :
    (∀ (image : Image) (strings : List String), image.strings.collect = .ok strings →
      (strings.Pairwise fun s t => Utf16.compare s t = .lt) →
      image.markers = .ok (strings.filterMap Marker.parse?)) ∧
    ∀ (opcodes : Opcodes) (calls : List Call) (a : Assembly) (bytes : Bytes) (image : Image),
      history opcodes calls = a → (write.on a).1 = .ok bytes → Image.ofBytes bytes = .ok image →
      (bytes.size < extentBound → image.strings.collect = .ok a.pools.strings.sortedKeys) ∧
      (image.strings.collect = .ok a.pools.strings.sortedKeys → ∃ markers, image.markers = .ok markers ∧
        ∀ m, Marked opcodes calls m → Marker.isObject m.content.toList = true → markers.count m = 1) := by
  refine ⟨fun _ _ => Image.markers_eq_of_collect, fun opcodes calls a bytes image ha hwrite himage => ?_⟩
  obtain ⟨hsealed, hwritten⟩ := (ha ▸ reliable_history opcodes calls : a.Reliable).sealed_of_write hwrite
  have hstrings := hsealed.ranked.strings
  refine ⟨fun hsize => ?_, fun hread => ?_⟩
  · obtain ⟨t, image', himage', -, hopens⟩ := Blueprint.opens_write hsealed.ranked hwritten hsize
    obtain rfl : image = image' := Except.ok.inj (himage.symm.trans himage')
    exact hopens.strings_eq hsealed.ranked
  · have hsorted : a.pools.strings.sortedKeys.Pairwise fun s t => Utf16.compare s t = .lt :=
      hstrings.ascending.imp fun h => by rwa [SortKey.compare_ofString] at h
    refine ⟨_, Image.markers_eq_of_collect hread hsorted, fun m hm hobject => ?_⟩
    have hhas : a.pools.Has (.string m.text) := ha ▸ hm.has
    exact Marker.count_filterMap_parse? hsorted (hstrings.mem_sortedKeys.mpr hhas) hobject

/-- The calls that add a marker twice and finalize. -/
def callsForTwice (m : Marker) : List Call :=
  [.ask (.marker m), .ask (.marker m), .finalize]

/-- A marker with an empty object. -/
def plainMarker : Marker :=
  ⟨.d8, "\x7b\x7d"⟩

theorem exists_write_plainMarker : ∃ a bytes, history .standard (callsForTwice plainMarker) = a ∧
    a.pools.strings.sortedKeys = [plainMarker.text] ∧ (write.on a).1 = .ok bytes ∧ bytes.size < extentBound := by
  have hgathered := gathered_gather .standard [.marker plainMarker, .marker plainMarker]
  have hhistory : history .standard (callsForTwice plainMarker) =
      (gather .standard [.marker plainMarker, .marker plainMarker]).finalized :=
    congrArg Prod.snd (on_finalize hgathered.growing)
  obtain ⟨a, ha⟩ : ∃ a, (gather .standard [.marker plainMarker, .marker plainMarker]).finalized = a := ⟨_, rfl⟩
  have hr : a.pools.Ranked := ha ▸ hgathered.growing.ranked_finalized
  have hhas : ∀ e, a.pools.Has e ↔ e ∈ [.string plainMarker.text] := fun e => by
    rw [← ha, finalized, Pools.has_finalized, has_gather .standard (by decide)]
    simp [Request.entries]
  have hclasses : a.blueprint.classes = [] := by
    rw [← ha]
    show ClassOrder.arrange (gather .standard _).classes.toList = []
    rw [classes_gather .standard (by decide)]
    exact List.perm_nil.mp (ClassOrder.arrange_perm [])
  have hkeys : a.pools.strings.sortedKeys = [plainMarker.text] :=
    hr.strings.sortedKeys_eq SortKey.ofString SortKey.compare (by decide) fun s => (hhas (.string s)).trans (by simp)
  obtain ⟨bytes, hwrite, hle⟩ := Blueprint.exists_write_of_no_classes (b := a.blueprint) hr
    (ha ▸ hgathered.closed.finalized) hclasses (fun e => (hhas e).mp) (by decide)
  have hroom : Blueprint.fileRoom [.string plainMarker.text] [] < extentBound := by decide +kernel
  exact ⟨a, bytes, hhistory.trans ha, hkeys, (congrArg Prod.fst (on_write hr)).trans hwrite,
    Nat.lt_of_le_of_lt hle hroom⟩

/-- A marker that has been added twice is found once. -/
theorem markers_found_twice : ∃ a bytes image, history .standard (callsForTwice plainMarker) = a ∧
    (write.on a).1 = .ok bytes ∧ Image.ofBytes bytes = .ok image ∧ bytes.size < extentBound ∧
    image.strings.collect = .ok [plainMarker.text] ∧
    ([plainMarker.text].Pairwise fun s t => Utf16.compare s t = .lt) ∧
    image.markers = .ok ([plainMarker.text].filterMap Marker.parse?) ∧
    Marked .standard (callsForTwice plainMarker) plainMarker ∧ Marker.isObject plainMarker.content.toList = true ∧
    ∃ markers, image.markers = .ok markers ∧ markers.count plainMarker = 1 := by
  obtain ⟨a, bytes, ha, hkeys, hwrite, hsize⟩ := exists_write_plainMarker
  obtain ⟨hsealed, hwritten⟩ := (ha ▸ reliable_history .standard _ : a.Reliable).sealed_of_write hwrite
  obtain ⟨t, image, himage, -, -⟩ := Blueprint.opens_write hsealed.ranked hwritten hsize
  obtain ⟨hreads, hfound⟩ := markers_found.2 .standard (callsForTwice plainMarker) a bytes image ha hwrite himage
  have hstrings := hreads hsize
  obtain ⟨markers, hmarkers, honce⟩ := hfound hstrings
  rw [hkeys] at hstrings
  have hsorted : [plainMarker.text].Pairwise fun s t => Utf16.compare s t = .lt := List.pairwise_singleton _ _
  have hmarked : Marked .standard (callsForTwice plainMarker) plainMarker := by
    refine ⟨[], _, _, rfl, .ask ?_⟩
    exact congrArg Prod.fst (on_addMarker (gathered_empty .standard).growing plainMarker)
  exact ⟨a, bytes, image, ha, hwrite, himage, hsize, hstrings, hsorted, markers_found.1 image _ hstrings hsorted,
    hmarked, by decide, markers, hmarkers, honce _ hmarked (by decide)⟩

end Assembly

end Dalvik
