import Dalvik.Proofs.Assembly.Pools
import Dalvik.Proofs.Outcome

/-!
# The indices of references

Finalized pools that are closed give every reference that is in its pool its
index there, and no other reference has an index (`Pools.Ranked.numbers`).
-/

namespace Dalvik

namespace Pool

variable {α : Type} [BEq α] [Hashable α] {p : Pool α} {before : α → α → Prop}

/-- A key of a finalized pool is found, and by it its index. -/
theorem Ranked.lookup_eq (h : p.Ranked before) {key : α} (hkey : key ∈ p.keys) (spell : α → String) :
    ∃ id, p.lookup spell key = .ok id ∧ p.index id = p.indexOrNone key := by
  obtain ⟨ranking, hranking⟩ := Option.isSome_iff_exists.mp h.isFinalized
  obtain ⟨id, hid⟩ := Array.mem_iff_getElem?.mp hkey
  have hid : p.id? key = some id := (h.wellFormed.ids_iff key id).mpr hid
  refine ⟨id, ?_, by rw [indexOrNone, hid]⟩
  simp only [lookup, Pool.ranking, hranking, hid]
  rfl

/-- What is not in a pool is not found. -/
theorem WellFormed.lookup_fails (h : p.WellFormed) {key : α} (hkey : key ∉ p.keys) (spell : α → String) :
    (p.lookup spell key).Fails := by
  have hid : p.id? key = none := by
    rw [Option.eq_none_iff_forall_ne_some]
    exact fun id hid => hkey (Array.mem_of_getElem? ((h.ids_iff key id).mp hid))
  unfold lookup
  cases p.ranking with
  | error e => exact ⟨e, rfl⟩
  | ok ranking =>
    rw [hid]
    exact ⟨_, rfl⟩

end Pool

namespace Pools

variable {p : Pools}

/-- An outcome that yields an id, whose index is then known. -/
def Finds {α : Type} [BEq α] [Hashable α] (r : Result Nat) (pool : Pool α) (key : α) : Prop :=
  ∃ id, r = .ok id ∧ pool.index id = pool.indexOrNone key

theorem Finds.map_index {α : Type} [BEq α] [Hashable α] {r : Result Nat} {pool : Pool α} {key : α}
    (h : Finds r pool key) : r.map pool.index = .ok (pool.indexOrNone key) := by
  obtain ⟨id, rfl, hid⟩ := h
  exact congrArg Except.ok hid

/-! ## What is there -/

theorem Ranked.findString (hr : p.Ranked) {s : String} (hs : p.Has (.string s)) :
    Finds (p.findString s) p.strings s :=
  hr.strings.lookup_eq hs _

section there

variable (hr : p.Ranked) (hc : p.Closed)

include hr hc

theorem Ranked.findType {d : String} (hd : p.Has (.type d)) : Finds (p.findType d) p.types d := by
  obtain ⟨name, hname, -⟩ := hr.findString (hc.string_of_type hd)
  simp only [Pools.findType, hname, Result.ok_bind]
  exact hr.types.lookup_eq hd _

theorem Ranked.findTypes {ts : List String} (hts : ∀ d ∈ ts, p.Has (.type d)) :
    ∃ ids, ts.mapM p.findType = .ok ids :=
  Result.exists_mapM fun d hd => by
    obtain ⟨id, hid, -⟩ := hr.findType hc (hts d hd)
    exact ⟨id, hid⟩

theorem Ranked.findTypeList {ts : List String} (hts : ts ≠ [] → p.Has (.typeList ts)) :
    ∃ id?, p.findTypeList ts = .ok id? := by
  unfold Pools.findTypeList
  cases ts with
  | nil => exact ⟨none, rfl⟩
  | cons d ts =>
    have hts := hts (List.cons_ne_nil d ts)
    obtain ⟨ids, hids⟩ := hr.findTypes hc fun e he => hc.types_of_typeList hts he
    obtain ⟨id, hid, -⟩ := hr.typeLists.lookup_eq hts
      (fun _ => Text.tagged "TypeListKey" [Text.bracketed (ids.map spellId)])
    refine ⟨some id, ?_⟩
    simp only [List.isEmpty_cons, Bool.false_eq_true, if_false, hids, Result.ok_bind]
    rw [hid]
    rfl

theorem Ranked.findProto {q : Prototype} (hq : p.Has (.proto q)) : Finds (p.findProto q) p.protos q := by
  obtain ⟨shorty, hshorty, -⟩ := hr.findString (hc.shorty_of_proto hq)
  obtain ⟨returnType, hreturn, -⟩ := hr.findType hc (hc.returnType_of_proto hq)
  obtain ⟨parameters, hparameters⟩ := hr.findTypeList hc (hc.typeList_of_proto hq)
  simp only [Pools.findProto, hshorty, hreturn, hparameters, Result.ok_bind]
  exact hr.protos.lookup_eq hq _

theorem Ranked.findField {f : FieldSig} (hf : p.Has (.field f)) : Finds (p.findField f) p.fields f := by
  obtain ⟨definingClass, hclass, -⟩ := hr.findType hc (hc.definingClass_of_field hf)
  obtain ⟨name, hname, -⟩ := hr.findString (hc.name_of_field hf)
  obtain ⟨type, htype, -⟩ := hr.findType hc (hc.type_of_field hf)
  simp only [Pools.findField, hclass, hname, htype, Result.ok_bind]
  exact hr.fields.lookup_eq hf _

theorem Ranked.findMethod {m : MethodSig} (hm : p.Has (.method m)) : Finds (p.findMethod m) p.methods m := by
  obtain ⟨definingClass, hclass, -⟩ := hr.findType hc (hc.definingClass_of_method hm)
  obtain ⟨name, hname, -⟩ := hr.findString (hc.name_of_method hm)
  obtain ⟨proto, hproto, -⟩ := hr.findProto hc (hc.proto_of_method hm)
  simp only [Pools.findMethod, hclass, hname, hproto, Result.ok_bind]
  exact hr.methods.lookup_eq hm _

theorem Ranked.findMember {m : HandleMember} (hm : p.Has (Closed.memberEntry m)) :
    ∃ text, p.findMember m = .ok text := by
  cases m with
  | field f =>
    obtain ⟨id, hid, -⟩ := hr.findField hc hm
    exact ⟨_, by rw [Pools.findMember, hid]; rfl⟩
  | method m =>
    obtain ⟨id, hid, -⟩ := hr.findMethod hc hm
    exact ⟨_, by rw [Pools.findMember, hid]; rfl⟩

theorem Ranked.findHandle {h : MethodHandle} (hh : p.Has (.handle h)) : Finds (p.findHandle h) p.handles h := by
  obtain ⟨member, hmember⟩ := hr.findMember hc (hc.member_of_handle hh)
  simp only [Pools.findHandle, hmember, Result.ok_bind]
  exact hr.handles.lookup_eq hh _

theorem Ranked.findCallSite {c : CallSite} (hcs : p.Has (.callSite c)) : Finds (p.findCallSite c) p.callSites c := by
  unfold Pools.findCallSite
  obtain ⟨array, harray, -⟩ := hr.arrays.lookup_eq (hc.array_of_callSite hcs)
    (fun values => Text.tagged "EncodedArrayKey" [Text.bracketed (Value.spelledValues values)])
  simp only [harray, Result.ok_bind]
  exact hr.callSites.lookup_eq hcs _

end there

/-! ## What is missing -/

section missing

variable (hr : p.Ranked)

include hr

theorem Ranked.findString_fails {s : String} (hs : ¬ p.Has (.string s)) : (p.findString s).Fails :=
  hr.strings.wellFormed.lookup_fails hs _

theorem Ranked.findType_fails {d : String} (hd : ¬ p.Has (.type d)) : (p.findType d).Fails :=
  Result.fails_bind fun _ => hr.types.wellFormed.lookup_fails hd _

theorem Ranked.findField_fails {f : FieldSig} (hf : ¬ p.Has (.field f)) : (p.findField f).Fails :=
  Result.fails_bind fun _ => Result.fails_bind fun _ => Result.fails_bind fun _ =>
    hr.fields.wellFormed.lookup_fails hf _

theorem Ranked.findMethod_fails {m : MethodSig} (hm : ¬ p.Has (.method m)) : (p.findMethod m).Fails :=
  Result.fails_bind fun _ => Result.fails_bind fun _ => Result.fails_bind fun _ =>
    hr.methods.wellFormed.lookup_fails hm _

theorem Ranked.findProto_fails {q : Prototype} (hq : ¬ p.Has (.proto q)) : (p.findProto q).Fails :=
  Result.fails_bind fun _ => Result.fails_bind fun _ => Result.fails_bind fun _ =>
    hr.protos.wellFormed.lookup_fails hq _

theorem Ranked.findHandle_fails {h : MethodHandle} (hh : ¬ p.Has (.handle h)) : (p.findHandle h).Fails :=
  Result.fails_bind fun _ => hr.handles.wellFormed.lookup_fails hh _

theorem Ranked.findCallSite_fails {c : CallSite} (hc : ¬ p.Has (.callSite c)) : (p.findCallSite c).Fails :=
  Result.fails_bind fun _ => hr.callSites.wellFormed.lookup_fails hc _

end missing

/-! ## Numbering -/

/-- The numbering yields an index exactly for what is in a pool, and that is its
index there. -/
def NumbersKeys {α : Type} [BEq α] [Hashable α] (pool : Pool α) (number : α → Result UInt32) : Prop :=
  ∀ key, (key ∈ pool.keys → number key = .ok (pool.indexOrNone key)) ∧ (key ∉ pool.keys → (number key).Fails)

/-- The numbering yields the indices of pools. -/
structure Numbers (p : Pools) (n : Numbering) : Prop where
  string : NumbersKeys p.strings n.string
  type : NumbersKeys p.types n.type
  field : NumbersKeys p.fields n.field
  method : NumbersKeys p.methods n.method
  proto : NumbersKeys p.protos n.proto
  handle : NumbersKeys p.handles n.handle
  callSite : NumbersKeys p.callSites n.callSite

/-- Finalized pools number what is in them. -/
theorem Ranked.numbers (hr : p.Ranked) (hc : p.Closed) : p.Numbers p.numbering where
  string _ := ⟨fun h => (hr.findString h).map_index, fun h => (hr.findString_fails h).map _⟩
  type _ := ⟨fun h => (hr.findType hc h).map_index, fun h => (hr.findType_fails h).map _⟩
  field _ := ⟨fun h => (hr.findField hc h).map_index, fun h => (hr.findField_fails h).map _⟩
  method _ := ⟨fun h => (hr.findMethod hc h).map_index, fun h => (hr.findMethod_fails h).map _⟩
  proto _ := ⟨fun h => (hr.findProto hc h).map_index, fun h => (hr.findProto_fails h).map _⟩
  handle _ := ⟨fun h => (hr.findHandle hc h).map_index, fun h => (hr.findHandle_fails h).map _⟩
  callSite _ := ⟨fun h => (hr.findCallSite hc h).map_index, fun h => (hr.findCallSite_fails h).map _⟩

end Pools

end Dalvik
