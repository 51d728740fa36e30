import Dalvik.Proofs.Assembly.Resolution

/-!
# Markers are found among the strings

A string that holds a marker has the text of the marker (`Marker.parse?_eq_some_iff`).
The search from the last string down ends at the first string below all markers, and
has found all markers by then (`Image.markers_eq_of_collect`).
-/

namespace Dalvik

/-- A string is not below one that it starts with. -/
theorem Utf16.compare_ne_lt_of_startsWith {s start : String} (h : s.startsWith start = true) :
    Utf16.compare s start ≠ .lt := by
  obtain ⟨rest, heq⟩ := String.startsWith_string_iff.mp h
  have hunits : encode s = encode start ++ rest.flatMap ofChar := by
    rw [encode, ← heq, List.flatMap_append, encode]
  rw [Utf16.compare, hunits]
  have hself : ∀ u : UInt16, Ord.compare u u = .eq := fun u => Std.ReflCmp.compare_self
  induction encode start with
  | nil => cases rest.flatMap ofChar <;> simp [List.compareLex_nil_nil, List.compareLex_cons_nil]
  | cons u units ih =>
    rw [List.cons_append, List.compareLex_cons_cons, hself u]
    exact ih

namespace Marker

theorem startsWith_opening (tool : MarkerTool) : start.toList <+: tool.opening.toList := by
  cases tool <;> decide

/-- No two openings begin one text. -/
theorem eq_of_openings {tool other : MarkerTool} {s : List Char} (h : tool.opening.toList <+: s)
    (h' : other.opening.toList <+: s) : tool = other := by
  have hlength : tool.opening.toList.length = other.opening.toList.length := by
    cases tool <;> cases other <;> decide
  have heq := (List.prefix_of_prefix_length_le h h' hlength.le).eq_of_length hlength
  cases tool <;> cases other <;> first | rfl | exact absurd heq (by decide)

theorem toList_text (m : Marker) : m.text.toList = m.tool.opening.toList ++ m.content.toList :=
  String.toList_append

theorem ofTool?_eq_some_iff {tool : MarkerTool} {s : List Char} {m : Marker} :
    ofTool? tool s = some m ↔ m.tool = tool ∧ s = m.text.toList ∧ isObject m.content.toList = true := by
  rw [ofTool?, Option.ite_none_right_eq_some, Bool.and_eq_true, List.isPrefixOf_iff_prefix, Option.some.injEq]
  constructor
  · rintro ⟨⟨⟨rest, rfl⟩, hobject⟩, rfl⟩
    rw [List.drop_left] at hobject ⊢
    exact ⟨rfl, by rw [toList_text, String.toList_ofList], by rwa [String.toList_ofList]⟩
  · rintro ⟨rfl, rfl, hobject⟩
    rw [toList_text, List.drop_left]
    exact ⟨⟨List.prefix_append _ _, hobject⟩, by rw [String.ofList_toList]⟩

/-- A string holds a marker exactly if it is the text of the marker and the marker has an
object. -/
theorem parse?_eq_some_iff {s : String} {m : Marker} :
    parse? s = some m ↔ s = m.text ∧ isObject m.content.toList = true := by
  constructor
  · intro h
    obtain ⟨tool, -, htool⟩ := List.exists_of_findSome?_eq_some h
    obtain ⟨-, htext, hobject⟩ := ofTool?_eq_some_iff.mp htool
    exact ⟨String.toList_inj.mp htext, hobject⟩
  · rintro ⟨rfl, hobject⟩
    have hown : ofTool? m.tool m.text.toList = some m := ofTool?_eq_some_iff.mpr ⟨rfl, rfl, hobject⟩
    have hother : ∀ tool, tool ≠ m.tool → ofTool? tool m.text.toList = none := by
      intro tool hne
      refine Option.eq_none_iff_forall_ne_some.mpr fun m' hm' => hne ?_
      obtain ⟨rfl, htext, -⟩ := ofTool?_eq_some_iff.mp hm'
      have hprefix : m'.tool.opening.toList <+: m.text.toList := by
        rw [htext, toList_text]
        exact List.prefix_append _ _
      have hprefixOwn : m.tool.opening.toList <+: m.text.toList := by
        rw [toList_text]
        exact List.prefix_append _ _
      exact eq_of_openings hprefix hprefixOwn
    rw [parse?, MarkerTool.all, List.findSome?_cons, List.findSome?_cons, List.findSome?_cons, List.findSome?_nil]
    cases htool : m.tool with
    | d8 =>
      rw [htool] at hown
      rw [hown]
    | r8 =>
      rw [htool] at hown hother
      rw [hother .d8 (by decide), hown]
    | l8 =>
      rw [htool] at hown hother
      rw [hother .d8 (by decide), hother .r8 (by decide), hown]

theorem startsWith_of_parse? {s : String} {m : Marker} (h : parse? s = some m) : s.startsWith start = true := by
  obtain ⟨rfl, -⟩ := parse?_eq_some_iff.mp h
  rw [String.startsWith_string_iff, toList_text]
  exact (startsWith_opening m.tool).trans (List.prefix_append _ _)

end Marker

namespace Image

/-- The search among strings in their order finds the markers that are below a number
of strings, the last one first. -/
theorem markersBelow_eq {image : Image} {strings : List String}
    (hstrings : ∀ i s, strings[i]? = some s → image.string (UInt32.ofNat i) = .ok s)
    (hsorted : strings.Pairwise fun a b => Utf16.compare a b = .lt) {count : Nat} (hcount : count ≤ strings.length) :
    image.markersBelow count = .ok ((strings.take count).filterMap Marker.parse?).reverse := by
  induction count with
  | zero => rfl
  | succ count ih =>
    have hs : strings[count]? = some strings[count] := List.getElem?_eq_getElem hcount
    rw [markersBelow, hstrings count _ hs, Result.ok_bind, List.take_add_one, hs, List.filterMap_append,
      List.reverse_append, ih (Nat.le_of_succ_le hcount)]
    split
    · cases hparse : Marker.parse? strings[count] <;> simp [hparse]
    · rename_i hstart
      have hnone : Marker.parse? strings[count] = none :=
        Option.eq_none_iff_forall_ne_some.mpr fun m hm => hstart (Marker.startsWith_of_parse? hm)
      split
      · rename_i hbelow
        have hearlier : (strings.take count).filterMap Marker.parse? = [] := by
          refine List.filterMap_eq_nil_iff.mpr fun s hmem => ?_
          refine Option.eq_none_iff_forall_ne_some.mpr fun m hm => ?_
          have hlt : Utf16.compare s strings[count] = .lt := by
            obtain ⟨i, hi⟩ := List.getElem?_of_mem hmem
            obtain ⟨hicount, hi⟩ := List.getElem?_eq_some_iff.mp hi
            rw [List.getElem_take] at hi
            rw [List.length_take] at hicount
            exact hi ▸ List.pairwise_iff_getElem.mp hsorted i count (by omega) hcount (by omega)
          exact Utf16.compare_ne_lt_of_startsWith (Marker.startsWith_of_parse? hm)
            (Std.TransCmp.lt_trans hlt (Ordering.isLT_iff_eq_lt.mp hbelow))
        simp [hnone, hearlier]
      · simp [hnone]

/-- If all strings can be read and are in order, the markers are those among them. -/
theorem markers_eq_of_collect {image : Image} {strings : List String} (hstrings : image.strings.collect = .ok strings)
    (hsorted : strings.Pairwise fun a b => Utf16.compare a b = .lt) :
    image.markers = .ok (strings.filterMap Marker.parse?) := by
  obtain ⟨hlength, hget⟩ := Result.get_of_collect hstrings
  have hcount : image.header.stringIds.size.toNat = strings.length := hlength.symm
  rw [markers, hcount, markersBelow_eq hget hsorted (Nat.le_refl _), List.take_length]
  exact congrArg Except.ok (List.reverse_reverse _)

end Image

/-- The strings of a file are read in their order. -/
theorem Blueprint.Opens.strings_eq {b : Blueprint} {t : DataTables} {image : Image} (h : b.Opens t image)
    (hr : b.pools.Ranked) : image.strings.collect = .ok b.pools.strings.sortedKeys := by
  refine Result.collect_eq ?_ fun i s hs => ?_
  · show image.header.stringIds.size.toNat = _
    rw [h.stringIds, h.identified.strings.size_eq]
    exact List.length_map _
  · show image.string (UInt32.ofNat i) = .ok s
    rw [← hr.strings.index hs]
    exact h.string_eq hr (hr.strings.mem_sortedKeys.mp (List.mem_of_getElem? hs))

/-- The markers of a file are those among its strings, in their order. -/
theorem Blueprint.Opens.markers_eq {b : Blueprint} {t : DataTables} {image : Image} (h : b.Opens t image)
    (hr : b.pools.Ranked) : image.markers = .ok (b.pools.strings.sortedKeys.filterMap Marker.parse?) :=
  Image.markers_eq_of_collect (h.strings_eq hr) (hr.strings.ascending.imp fun h => by rwa [SortKey.compare_ofString] at h)

end Dalvik
