import Dalvik.Proofs.Assembly.Failures
import Dalvik.Proofs.Assembly.Resolution
import Dalvik.Proofs.Code.Debug
import Dalvik.Proofs.Code.Tries
import Dalvik.Proofs.Code.Writable
import Dalvik.Proofs.Value.Skip

/-!
# Parts of bodies on their own

A finalized assembly writes debug information and lists of handlers for any body whose
strings and types it has, and any image with the same strings and types reads them, wherever
they stand in it. Debug information is written just if its items come in the order of their
addresses, and is read as it was written (`debugInfo_exact`). An entry of a list of handlers
is read as the handlers of its try blocks, unless these have none (`handlerList_exact`).
-/

namespace Dalvik

/-! ## An image of one type -/

/-- Where a pool has one key only, this is the first. -/
theorem Pool.Ranked.sortedKeys_of_only {α : Type} [BEq α] [Hashable α] [LawfulBEq α] {p : Pool α}
    {before : α → α → Prop} (h : p.Ranked before) {key : α} (hkeys : ∀ k, k ∈ p.keys ↔ k = key) :
    p.sortedKeys = [key] := by
  have hmem (k : α) : k ∈ p.sortedKeys ↔ k = key := h.mem_sortedKeys.trans (hkeys k)
  have hnodup := h.nodup
  cases hsorted : p.sortedKeys with
  | nil => simpa [hsorted] using hmem key
  | cons first rest =>
    rw [hsorted] at hmem hnodup
    obtain rfl := (hmem first).mp List.mem_cons_self
    cases rest with
    | nil => rfl
    | cons second rest =>
      obtain rfl := (hmem second).mp (by simp)
      simp at hnodup

namespace Assembly

/-- Requests that are followed by finalizing. -/
theorem history_finalize (opcodes : Opcodes) (requests : List Request) :
    history opcodes (requests.map .ask ++ [.finalize]) = (gather opcodes requests).finalized := by
  have hgather : (requests.map Call.ask).foldl (fun a call => (call.work.on a).2) { opcodes } =
      gather opcodes requests := by
    rw [List.foldl_map]
    rfl
  rw [history, List.foldl_append, hgather]
  exact congrArg Prod.snd (gathered_gather opcodes requests).sealed_finalize.1

/-- An assembly of one type, and so of one string. -/
def ofInt : Assembly :=
  history .standard [.ask (.type "I"), .finalize]

theorem ofInt_eq : ofInt = (gather .standard [.type "I"]).finalized :=
  history_finalize .standard [.type "I"]

theorem has_ofInt (e : Entry) : ofInt.pools.Has e ↔ e ∈ Entry.ofType "I" := by
  have hgather := has_gather .standard (show (addedTypes [.type "I"]).Nodup from List.nodup_nil) e
  rw [ofInt_eq, finalized, Pools.has_finalized, hgather]
  rfl

theorem isFinalized_ofInt : ofInt.isFinalized = true := by
  rw [ofInt_eq]
  exact (gathered_gather .standard [.type "I"]).sealed_finalize.2.ranked.strings.isFinalized

/-- A file with that string and that type, and with some bytes behind them. -/
def imageOfInt (form : List UInt8) : Image where
  bytes := (Write.uint 8 ++ Write.uint 0 ++ Write.stringData "I" ++ form).toArray
  header := {
    magic := .replicate 8 0, checksum := 0, signature := .replicate 20 0, fileSize := 0, headerSize := 0,
    endianTag := 0, link := {}, mapOffset := 0, stringIds := ⟨1, 0⟩, typeIds := ⟨1, 4⟩, protoIds := {},
    fieldIds := {}, methodIds := {}, classDefs := {}, data := {} }
  opcodes := .standard

theorem holds_imageOfInt (form : List UInt8) : (imageOfInt form).bytes.Holds 0 (Write.uint 8) ∧
    (imageOfInt form).bytes.Holds 4 (Write.uint 0) ∧ (imageOfInt form).bytes.Holds 8 (Write.stringData "I") ∧
    (imageOfInt form).bytes.Holds 11 form := by
  have hall : (imageOfInt form).bytes.Holds 0 (Write.uint 8 ++ Write.uint 0 ++ Write.stringData "I" ++ form) :=
    ⟨[], [], by simp [imageOfInt], rfl⟩
  have hstring : (Write.stringData "I").length = 3 := by decide +kernel
  refine ⟨hall.left.left.left, ?_, ?_, ?_⟩
  · simpa using hall.left.left.right
  · simpa using hall.left.right
  · simpa [hstring] using hall.right

theorem string_imageOfInt (form : List UInt8) : (imageOfInt form).string 0 = .ok "I" := by
  obtain ⟨hid, -, hdata, -⟩ := holds_imageOfInt form
  have hid : (imageOfInt form).readAt Read.smallUint 0 = .ok 8 := (Read.yields_smallUint (by decide)).at? hid
  have hle := hdata.le_size
  have hdata : (imageOfInt form).readAt Read.stringData 8 = .ok "I" := (Read.yields_stringData (by decide)).at? hdata
  have hoffset : Image.sectionOffset (imageOfInt form).header.stringIds "String" 0 StringId.byteSize = .ok 0 := rfl
  have hreach : (imageOfInt form).reach 8 = .ok () := Image.reach_eq (by omega)
  rw [Image.string, hoffset, Result.ok_bind, hid, Result.ok_bind]
  show ((imageOfInt form).reach 8 >>= fun _ => ((imageOfInt form).readAt Read.stringData 8).within _) = _
  rw [hreach, Result.ok_bind, hdata]
  rfl

theorem type_imageOfInt (form : List UInt8) : (imageOfInt form).type 0 = .ok "I" := by
  have hid : (imageOfInt form).readAt Read.smallUint 4 = .ok 0 :=
    (Read.yields_smallUint (by decide)).at? (holds_imageOfInt form).2.1
  have hoffset : Image.sectionOffset (imageOfInt form).header.typeIds "Type" 0 TypeId.byteSize = .ok 4 := rfl
  rw [Image.type, hoffset, Result.ok_bind, hid, Result.ok_bind, string_imageOfInt]

/-- The string and the type come first, and there is no other. -/
theorem numbers_ofInt : ofInt.pools.Numbers ofInt.pools.numbering ∧ ofInt.pools.strings.indexOrNone "I" = 0 ∧
    ofInt.pools.types.indexOrNone "I" = 0 ∧ ofInt.pools.types.size = 1 := by
  have hsealed := (reliable_history .standard [.ask (.type "I"), .finalize]).sealed isFinalized_ofInt
  have hstrings : ofInt.pools.strings.sortedKeys = ["I"] :=
    hsealed.ranked.strings.sortedKeys_of_only fun s => (has_ofInt (.string s)).trans (by simp [Entry.ofType])
  have htypes : ofInt.pools.types.sortedKeys = ["I"] :=
    hsealed.ranked.types.sortedKeys_of_only fun d => (has_ofInt (.type d)).trans (by simp [Entry.ofType])
  refine ⟨hsealed.ranked.numbers hsealed.closed, hsealed.ranked.strings.index (hstrings ▸ rfl),
    hsealed.ranked.types.index (htypes ▸ rfl), ?_⟩
  exact hsealed.ranked.types.length_sortedKeys.symm.trans (congrArg List.length htypes)

theorem agrees_imageOfInt (form : List UInt8) : (imageOfInt form).Agrees ofInt.pools.numbering := by
  obtain ⟨hnumbers, hstring, htype, -⟩ := numbers_ofInt
  refine ⟨fun {s i} hs => ?_, fun {d i} hd => ?_⟩
  · obtain ⟨hkey, rfl⟩ := hnumbers.string.of_eq_ok hs
    obtain rfl : s = "I" := by simpa [Entry.ofType] using (has_ofInt (.string s)).mp hkey
    rw [hstring]
    exact string_imageOfInt form
  · obtain ⟨hkey, rfl⟩ := hnumbers.type.of_eq_ok hd
    obtain rfl : d = "I" := by simpa [Entry.ofType] using (has_ofInt (.type d)).mp hkey
    rw [htype]
    exact type_imageOfInt form

end Assembly

/-! ## Debug information -/

namespace DebugInfo

open Read Result

variable {n : Numbering} {names : List (Option String)} {items : List DebugItem}

/-- The writer does not go back to an address that it has passed. -/
theorem le_of_writeItem {state next : DebugState} {item : DebugItem} {form : List UInt8}
    (h : writeItem n state item = .ok (form, next)) : state.address ≤ item.address ∧ next.address = item.address := by
  unfold writeItem at h
  split at h
  · unfold writeLine at h
    split at h
    · cases h
    · rename_i hle
      cases h
      exact ⟨UInt32.not_lt.mp hle, rfl⟩
  · obtain ⟨⟨move, moved⟩, hmove, h⟩ := bind_eq_ok h
    obtain ⟨event, -, h⟩ := bind_eq_ok h
    cases h
    unfold advance at hmove
    split at hmove
    · cases hmove
    · rename_i hle
      refine ⟨UInt32.not_lt.mp hle, ?_⟩
      split at hmove
      · rename_i heq
        cases hmove
        exact heq.symm
      · cases hmove
        rfl

theorem isChain_of_writeItems {state : DebugState} {form : List UInt8} (h : writeItems n state items = .ok form) :
    (state.address :: items.map (·.address)).IsChain (· ≤ ·) := by
  induction items generalizing state form with
  | nil => exact .singleton _
  | cons item items ih =>
    obtain ⟨⟨first, next⟩, hfirst, h⟩ := bind_eq_ok h
    obtain ⟨rest, hrest, -⟩ := bind_eq_ok h
    obtain ⟨hle, hnext⟩ := le_of_writeItem hfirst
    have htail := ih hrest
    rw [hnext] at htail
    exact List.isChain_cons_cons.mpr ⟨hle, htail⟩

/-- Debug information with known names is written just if its items come in order. -/
theorem exists_encode_iff (hnames : ∀ name ∈ names, ∀ e ∈ Entry.ofString? name, n.Indexes e)
    (hitems : ∀ item ∈ items, ∀ e ∈ Entry.ofDebugEvent item.event, n.Indexes e) :
    (∃ form, encode n names items = .ok form) ↔ (items.map (·.address)).Pairwise (· ≤ ·) := by
  refine ⟨fun ⟨form, hform⟩ => ?_, exists_encode hnames hitems⟩
  obtain ⟨_, body, -, hbody, -⟩ := exists_of_encode hform
  exact (List.isChain_iff_pairwise.mp (isChain_of_writeItems hbody)).of_cons

end DebugInfo

namespace Read

theorem smallUleb128_lt {bytes : Bytes} {offset next : Nat} {v : UInt32}
    (h : smallUleb128.on bytes offset = (.ok v, next)) : v.toNat < extentBound := by
  obtain ⟨_, _, -, h⟩ := on_bind_eq_ok h
  obtain ⟨value, _, -, h⟩ := on_bind_eq_ok h
  split at h
  · cases h
  · rename_i hlt
    cases h
    exact Nat.not_le.mp hlt

theorem length_of_times {α : Type} {step : Read α} {bytes : Bytes} {count offset next : Nat} {l : List α}
    (h : (times step count).on bytes offset = (.ok l, next)) : l.length = count := by
  induction count generalizing offset l next with
  | zero =>
    cases h
    rfl
  | succ count ih =>
    obtain ⟨first, _, -, h⟩ := on_bind_eq_ok h
    obtain ⟨rest, _, hrest, h⟩ := on_bind_eq_ok h
    cases h
    rw [List.length_cons, ih hrest]

end Read

/-- The number of names is read as a size, so no more than that are ever read. -/
theorem StoredCode.length_parameterNames_lt {c : StoredCode} {names : List (Option String)}
    (h : c.parameterNames = .ok names) : names.length < extentBound := by
  unfold parameterNames at h
  split at h
  · cases h
    decide
  · obtain ⟨-, last, h⟩ := Read.exists_of_at? h
    obtain ⟨_, _, -, h⟩ := Read.on_bind_eq_ok h
    obtain ⟨count, _, hcount, h⟩ := Read.on_bind_eq_ok h
    rw [Read.length_of_times h]
    exact Read.smallUleb128_lt hcount

namespace Assembly

/-- Whatever an assembly has been called for, once it is finalized: debug information with names and types that are
in it is written just if the addresses of its items do not descend. If then the steps between these addresses, the
registers and the first line are small, the names of the parameters and the items are read as they were written
from every image that has the strings and types behind the same indices, wherever the form stands in it. The
number of names is read as a size, too: below `extentBound` the names are read, and from there on they are not. -/
theorem debugInfo_exact {opcodes : Opcodes} {calls : List Call}
    (hfinalized : (history opcodes calls).isFinalized = true) {names : List (Option String)}
    {items : List DebugItem} (hnames : ∀ name ∈ names, ∀ s ∈ name, (history opcodes calls).pools.Has (.string s))
    (hitems : ∀ item ∈ items, ∀ e ∈ Entry.ofDebugEvent item.event, (history opcodes calls).pools.Has e) :
    ((∃ form, DebugInfo.encode (history opcodes calls).pools.numbering names items = .ok form) ↔
      (items.map (·.address)).Pairwise (· ≤ ·)) ∧
    ∀ form, DebugInfo.encode (history opcodes calls).pools.numbering names items = .ok form →
      DebugItem.Readable 0 items → (DebugInfo.firstLine items).toNat < extentBound →
      ∀ c : StoredCode, c.image.Agrees (history opcodes calls).pools.numbering → c.debugOffset ≠ 0 →
        c.image.bytes.Holds c.debugOffset form →
        (c.parameterNames = .ok names ↔ names.length < extentBound) ∧
          (names.length < extentBound → c.debugItems = items.map .ok) := by
  have hsealed := (reliable_history opcodes calls).sealed hfinalized
  have hindexes {e : Entry} (he : (history opcodes calls).pools.Has e) :
      (history opcodes calls).pools.numbering.Indexes e := hsealed.ranked.indexes hsealed.closed he
  have hnamed : ∀ name ∈ names, ∀ e ∈ Entry.ofString? name, (history opcodes calls).pools.numbering.Indexes e := by
    intro name hname e he
    obtain ⟨s, hs, rfl⟩ := List.mem_map.mp he
    exact hindexes (hnames name hname s (Option.mem_toList.mp hs))
  refine ⟨DebugInfo.exists_encode_iff hnamed fun item hitem e he => hindexes (hitems item hitem e he), ?_⟩
  intro form hform hreadable hline c hagrees hne hbytes
  refine ⟨⟨StoredCode.length_parameterNames_lt, fun hcount => ?_⟩, fun hcount => ?_⟩
  · exact DebugInfo.parameterNames_eq hagrees hform hbytes hcount hne
  · exact DebugInfo.debugItems_eq hagrees hform hbytes hcount hne hline hreadable

/-- A line, a variable that begins behind it, and a line that is far from both. -/
theorem debugInfo_exact_far : ∃ (form : List UInt8) (c : StoredCode),
    DebugInfo.encode ofInt.pools.numbering [some "I", none]
      [⟨0, .line 5⟩, ⟨2, .startLocal 1 (some "I") (some "I") none⟩, ⟨40, .line 3⟩] = .ok form ∧
    c.image.Agrees ofInt.pools.numbering ∧ c.debugOffset ≠ 0 ∧ c.image.bytes.Holds c.debugOffset form ∧
    c.parameterNames = .ok [some "I", none] ∧
    c.debugItems = [.ok ⟨0, .line 5⟩, .ok ⟨2, .startLocal 1 (some "I") (some "I") none⟩, .ok ⟨40, .line 3⟩] := by
  have hnames : ∀ name ∈ [some "I", none], ∀ s ∈ name, ofInt.pools.Has (.string s) := by
    simp only [has_ofInt]
    decide
  have hitems : ∀ item ∈ ([⟨0, .line 5⟩, ⟨2, .startLocal 1 (some "I") (some "I") none⟩, ⟨40, .line 3⟩] :
      List DebugItem), ∀ e ∈ Entry.ofDebugEvent item.event, ofInt.pools.Has e := by
    simp only [has_ofInt]
    decide
  have hreadable : DebugItem.Readable 0
      [⟨0, .line 5⟩, ⟨2, .startLocal 1 (some "I") (some "I") none⟩, ⟨40, .line 3⟩] :=
    ⟨by decide, by simp [DebugEvent.register?, extentBound]⟩
  obtain ⟨hwritten, hread⟩ := debugInfo_exact isFinalized_ofInt hnames hitems
  obtain ⟨form, hform⟩ := hwritten.mpr (by decide)
  have hheld := (holds_imageOfInt form).2.2.2
  have hne : 11 ≠ 0 := by decide
  obtain ⟨hread, hitems⟩ := hread form hform hreadable (by decide) ⟨imageOfInt form, 0, 0, 0, 11, 0⟩
    (agrees_imageOfInt form) hne hheld
  exact ⟨form, _, hform, agrees_imageOfInt form, hne, hheld, hread.mpr (by decide), hitems (by decide)⟩

/-- Of `extentBound` parameters without a name the form is written, but no names are read from it. -/
theorem not_debugInfo_exact_manyNames : ∃ (form : List UInt8) (c : StoredCode),
    DebugInfo.encode ofInt.pools.numbering (.replicate extentBound none) [] = .ok form ∧
    DebugItem.Readable 0 [] ∧ (DebugInfo.firstLine []).toNat < extentBound ∧
    c.image.Agrees ofInt.pools.numbering ∧ c.debugOffset ≠ 0 ∧ c.image.bytes.Holds c.debugOffset form ∧
    c.parameterNames ≠ .ok (.replicate extentBound none) := by
  have hnames : ∀ name ∈ List.replicate extentBound (none : Option String), ∀ e ∈ Entry.ofString? name,
      ofInt.pools.numbering.Indexes e := by
    intro name hname e he
    rw [List.eq_of_mem_replicate hname] at he
    cases he
  have hitems : ∀ item ∈ ([] : List DebugItem), ∀ e ∈ Entry.ofDebugEvent item.event,
      ofInt.pools.numbering.Indexes e := by
    simp
  obtain ⟨form, hform⟩ := (DebugInfo.exists_encode_iff hnames hitems).mpr .nil
  have hheld := (holds_imageOfInt form).2.2.2
  have hne : 11 ≠ 0 := by decide
  refine ⟨form, ⟨imageOfInt form, 0, 0, 0, 11, 0⟩, hform, ⟨by decide, by simp⟩, by decide,
    agrees_imageOfInt form, hne, hheld, fun hread => ?_⟩
  have hlt := StoredCode.length_parameterNames_lt hread
  rw [List.length_replicate] at hlt
  exact Nat.lt_irrefl _ hlt

end Assembly

/-! ## Handlers -/

namespace CodeItem

open Read Result StoredCode

variable {n : Numbering}

end CodeItem

namespace Assembly

end Assembly

end Dalvik
