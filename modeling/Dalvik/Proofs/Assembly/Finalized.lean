import Dalvik.Proofs.Assembly.InsertionOrder

/-!
# Finalized assemblies

An assembly that has been finalized takes nothing more: requests leave it as it is
(`after_eq_self`), and so does finalizing it again. Writing it only records where the
strings will be. So its pools stay ranked whatever is asked of it (`Finalized.ranked`).
-/

namespace Dalvik

namespace Pool

variable {α : Type} [BEq α] [Hashable α] {p : Pool α} {before : α → α → Prop}

/-- Recorded offsets do not change how a pool is ranked. -/
theorem Ranked.setOffsets (h : p.Ranked before) (offsets : List UInt32) : (p.setOffsets offsets).Ranked before := by
  obtain ⟨name, keys, ids, ranking?⟩ := p
  cases ranking? with
  | none => exact h
  | some ranking => exact ⟨rfl, ⟨h.wellFormed.ids_iff⟩, h.indices, h.perm, h.ascending, h.index⟩

end Pool

/-- Pools that are ranked take no more entries. -/
theorem Pools.Ranked.accept_fails {p : Pools} (h : p.Ranked) (e : Entry) : (p.accept e).Fails := by
  have hfinalized : (p.poolOf e).2 = true := by
    cases e with
    | string s => exact h.strings.isFinalized
    | type d => exact h.types.isFinalized
    | typeList ts => exact h.typeLists.isFinalized
    | proto q => exact h.protos.isFinalized
    | field f => exact h.fields.isFinalized
    | method m => exact h.methods.isFinalized
    | handle k => exact h.handles.isFinalized
    | array vs => exact h.arrays.isFinalized
    | callSite c => exact h.callSites.isFinalized
    | annotationItem a => exact h.annotations.isFinalized
    | annotationSet as => exact h.annotationSets.isFinalized
  simp only [Pools.accept, hfinalized, if_true]
  exact ⟨_, rfl⟩

namespace Assembly

variable {a : Assembly}

/-- Making an entry fails and changes nothing. -/
theorem intern_fails (h : a.pools.Ranked) (e : Entry) (entries : List Entry) :
    ∃ error, (intern (e :: entries)).on a = (.error error, a) := by
  obtain ⟨error, he⟩ := h.accept_fails e
  have hall : ((e :: entries).forM internOne).on a = (.error error, a) := by
    show (internOne e >>= fun _ => entries.forM internOne).on a = _
    simp only [internOne, on_bind, on_get, on_ofResult, he]
  exact ⟨error, by simp only [intern, on_bind, hall]⟩

/-- A request leaves an assembly as it is once the pools are ranked. -/
theorem after_eq_self (h : a.pools.Ranked) (r : Request) : a.after r = a := by
  have hfinalized : a.isFinalized = true := h.strings.isFinalized
  have hintern (entries : List Entry) : ((discard (intern entries) : Work Unit).on a).2 = a := by
    rw [on_discard]
    cases entries with
    | nil => rfl
    | cons e entries =>
      obtain ⟨error, he⟩ := intern_fails h e entries
      rw [he]
  rw [after]
  cases r with
  | classDef view => simp only [Request.work, addClass, on_bind, on_get, hfinalized, if_true, on_fail, Result.fail]
  | marker m =>
    obtain ⟨error, he⟩ := intern_fails h (.string m.text) []
    simp only [Request.work, addMarker, on_bind, on_discard, he, Except.map]
  | _ => exact hintern _

theorem finalize_eq_self (h : a.pools.Ranked) : (finalize.on a).2 = a := by
  have hfinalized : a.isFinalized = true := h.strings.isFinalized
  simp only [finalize, on_bind, on_get, hfinalized, if_true, on_fail, Result.fail]

theorem ranked_recordStrings (h : a.pools.Ranked) : a.recordStrings.pools.Ranked :=
  { h with strings := h.strings.setOffsets _ }

/-- Assemblies that have been finalized, whatever has been asked of them before and since. -/
inductive Finalized : Assembly → Prop where
  | finalized (opcodes : Opcodes) (requests : List Request) {a : Assembly}
      (h : finalize.on (gather opcodes requests) = (.ok (), a)) : Finalized a
  | asked {a : Assembly} (h : Finalized a) (r : Request) : Finalized (a.after r)
  | again {a : Assembly} (h : Finalized a) : Finalized (finalize.on a).2
  | written {a : Assembly} (h : Finalized a) : Finalized (write.on a).2

/-- The pools of a finalized assembly are ranked. -/
theorem Finalized.ranked (h : a.Finalized) : a.pools.Ranked := by
  induction h with
  | finalized opcodes requests h =>
    have hgathered := gathered_gather opcodes requests
    rw [on_finalize hgathered.growing] at h
    cases h
    exact hgathered.growing.ranked_finalized
  | asked h r ih => rwa [after_eq_self ih r]
  | again h ih => rwa [finalize_eq_self ih]
  | written h ih =>
    rw [on_write ih]
    exact ranked_recordStrings ih

end Assembly

end Dalvik
