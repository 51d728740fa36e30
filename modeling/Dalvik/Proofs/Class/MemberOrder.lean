import Dalvik.Assembly.Members
import Dalvik.Proofs.Assembly.InsertionOrder

/-!
# The order of members and the order of their indices

The members of a class are put in order by the strings that they are made of when
the class is added, and they have indices only when all tables are finalized. Both
orders are one (`FieldDef.compare_sig`, `MethodDef.compare_sig`), so that the
differences between the indices of a list of members can be had exactly if no two
of them are the same, and lead from one index to the next
(`Pool.Ranked.followsIndices`).
-/

namespace Dalvik

/-! ## Differences -/

namespace Members

/-- The sums of the first of some numbers, added to a start. -/
def runningSums (start : Nat) : List UInt32 → List Nat
  | [] => []
  | d :: ds => (start + d.toNat) :: runningSums (start + d.toNat) ds

/-- The differences between the indices of the fields of a list. -/
def fieldDeltas (p : Pools) (type : String) (fields : List FieldDef) : Result (List UInt32) :=
  deltas (.fieldsOutOfOrder type) none (fields.map fun f => p.fields.indexOrNone f.sig)

/-- The differences between the indices of the methods of a list. -/
def methodDeltas (p : Pools) (type : String) (methods : List MethodDef) : Result (List UInt32) :=
  deltas (.methodsOutOfOrder type) none (methods.map fun m => p.methods.indexOrNone m.sig)

theorem writeFields_eq (p : Pools) (type : String) (fields : List FieldDef) :
    writeFields p type fields = (do return ((← fieldDeltas p type fields).zipWith writeField fields).flatten) :=
  rfl

theorem writeMethods_eq (p : Pools) (codeOffsets : Std.HashMap MethodSig Nat) (type : String)
    (methods : List MethodDef) : writeMethods p codeOffsets type methods =
      (do return ((← methodDeltas p type methods).zipWith (writeMethod codeOffsets) methods).flatten) :=
  rfl

variable {cause : Cause} {indices : List UInt32}

/-- Indices that ascend have differences, which lead from one index to the next. -/
theorem exists_deltas (previous : Option UInt32) (h : (previous.toList ++ indices).IsChain (· < ·)) :
    ∃ ds, deltas cause previous indices = .ok ds ∧
      runningSums (previous.getD 0).toNat ds = indices.map UInt32.toNat := by
  induction indices generalizing previous with
  | nil => exact ⟨[], rfl, rfl⟩
  | cons index indices ih =>
    cases previous with
    | none =>
      obtain ⟨ds, hds, hsums⟩ := ih (some index) h
      refine ⟨index :: ds, by rw [deltas.eq_def]; simp [hds], ?_⟩
      simpa [runningSums] using hsums
    | some before =>
      have hchain : (before :: index :: indices).IsChain (· < ·) := h
      rw [List.isChain_cons_cons] at hchain
      obtain ⟨ds, hds, hsums⟩ := ih (some index) hchain.2
      have hsum : before.toNat + (index - before).toNat = index.toNat := by
        rw [UInt32.toNat_sub_of_le _ _ (UInt32.le_of_lt hchain.1)]
        have := UInt32.lt_iff_toNat_lt.mp hchain.1
        omega
      refine ⟨(index - before) :: ds, ?_, ?_⟩
      · rw [deltas.eq_def]
        simp [UInt32.not_le.mpr hchain.1, hds]
      · simpa [runningSums, hsum] using hsums

/-- Indices that do not ascend have no differences. -/
theorem deltas_eq_fail (previous : Option UInt32) (h : ¬ (previous.toList ++ indices).IsChain (· < ·)) :
    deltas cause previous indices = .fail cause := by
  induction indices generalizing previous with
  | nil => cases previous <;> simp at h
  | cons index indices ih =>
    cases previous with
    | none =>
      rw [deltas.eq_def]
      simp [ih (some index) h, Result.fail]
    | some before =>
      have hchain : ¬ (before :: index :: indices).IsChain (· < ·) := h
      rw [List.isChain_cons_cons, not_and] at hchain
      rw [deltas.eq_def]
      by_cases hle : index ≤ before
      · simp [hle, Result.fail]
      · simp [hle, ih (some index) (hchain (UInt32.not_le.mp hle)), Result.fail]

section ascending

variable {ds : List UInt32} (h : deltas cause none indices = .ok ds)

include h

/-- Indices that have differences ascend. -/
theorem isChain_of_deltas : indices.IsChain (· < ·) := by
  by_contra hchain
  rw [deltas_eq_fail none hchain] at h
  cases h

theorem ascending_of_deltas : (indices.map UInt32.toNat).Pairwise (· < ·) :=
  List.pairwise_map.mpr ((List.isChain_iff_pairwise.mp (isChain_of_deltas h)).imp UInt32.lt_iff_toNat_lt.mp)

/-- The differences lead from one index to the next. -/
theorem runningSums_of_deltas : runningSums 0 ds = indices.map UInt32.toNat := by
  obtain ⟨ds', hds', hsums⟩ := exists_deltas none (isChain_of_deltas h)
  rwa [Except.ok.inj (h.symm.trans hds')]

/-- No more indices than there are have differences. -/
theorem length_le_of_deltas : indices.length ≤ UInt32.size := by
  have hlt := ascending_of_deltas h
  have hsub : indices.map UInt32.toNat ⊆ List.range UInt32.size := fun n hn => by
    obtain ⟨i, -, rfl⟩ := List.mem_map.mp hn
    exact List.mem_range.mpr i.toNat_lt_size
  simpa using (List.Nodup.subperm (hlt.imp Nat.ne_of_lt) hsub).length_le

end ascending

end Members

/-! ## Both orders -/

/-- Fields of one class are in the order of their signatures. -/
theorem FieldDef.compare_sig {f g : FieldDef} (h : f.definingClass = g.definingClass) :
    SortKey.compare (SortKey.ofField f.sig) (SortKey.ofField g.sig) = SortKey.compare f.sortKey g.sortKey := by
  rw [SortKey.ofField, SortKey.ofField, SortKey.compare_ofStrings_cons]
  simp only [sig, h, Std.ReflCmp.compare_self]
  rfl

/-- Methods of one class are in the order of their signatures. -/
theorem MethodDef.compare_sig {m n : MethodDef} (h : m.definingClass = n.definingClass) :
    SortKey.compare (SortKey.ofMethod m.sig) (SortKey.ofMethod n.sig) = SortKey.compare m.sortKey n.sortKey := by
  show SortKey.compare (SortKey.ofStrings (m.definingClass :: m.name :: m.returnType :: m.parameterTypes))
    (SortKey.ofStrings (n.definingClass :: n.name :: n.returnType :: n.parameterTypes)) = _
  have hself : Utf16.compare n.definingClass n.definingClass = .eq := Std.ReflCmp.compare_self
  rw [SortKey.compare_ofStrings_cons, h, hself]
  rfl

/-- Differences between the indices of members, where the members are in the order
of their sort keys. -/
structure Members.FollowsIndices {α μ : Type} (indices : List UInt32) (members : List μ) (sig : μ → α)
    (sortKey : μ → SortKey) (cause : Cause) (outcome : Result (List UInt32)) : Prop where
  /-- The order of the sort keys is that of the indices. -/
  order : ∀ x ∈ indices.zip members, ∀ y ∈ indices.zip members,
    compare x.1 y.1 = SortKey.compare (sortKey x.2) (sortKey y.2)
  /-- The differences can be had exactly if no two members are the same. -/
  exists_iff : (∃ ds, outcome = .ok ds) ↔ (members.map sig).Nodup
  fails : ¬ (members.map sig).Nodup → outcome = .fail cause
  /-- The differences lead from one index to the next. -/
  sums : ∀ {ds : List UInt32}, outcome = .ok ds → runningSums 0 ds = indices.map UInt32.toNat
  ascending : ∀ {ds : List UInt32}, outcome = .ok ds → (runningSums 0 ds).Pairwise (· < ·)

namespace Pool

variable {α μ : Type} [BEq α] [Hashable α] {p : Pool α} {sig : μ → α} {sortKey : μ → SortKey} {cause : Cause}
  {members : List μ}

section ranked

variable [LawfulBEq α] {key : α → SortKey} (h : p.Ranked fun a b => SortKey.compare (key a) (key b) = .lt)
  (hsize : p.size ≤ UInt32.size)

include h hsize

/-- Members that are listed in the order of their sort keys have the differences
between their indices, unless one of them is listed twice. -/
theorem Ranked.followsIndices (hmem : ∀ m ∈ members, sig m ∈ p.keys)
    (hkeys : ∀ m ∈ members, ∀ n ∈ members,
      SortKey.compare (key (sig m)) (key (sig n)) = SortKey.compare (sortKey m) (sortKey n))
    (hsorted : members.Pairwise fun m n => (SortKey.compare (sortKey m) (sortKey n)).isLE = true) :
    Members.FollowsIndices (members.map fun m => p.indexOrNone (sig m)) members sig sortKey cause
      (Members.deltas cause none (members.map fun m => p.indexOrNone (sig m))) := by
  have horder : ∀ m ∈ members, ∀ n ∈ members,
      compare (p.indexOrNone (sig m)) (p.indexOrNone (sig n)) = SortKey.compare (sortKey m) (sortKey n) :=
    fun m hm n hn => (h.compare_indexOrNone hsize key (hmem m hm) (hmem n hn)).trans (hkeys m hm n hn)
  have hchain : (members.map fun m => p.indexOrNone (sig m)).IsChain (· < ·) ↔ (members.map sig).Nodup := by
    rw [List.isChain_iff_pairwise, List.pairwise_map, List.Nodup, List.pairwise_map]
    refine ⟨fun hlt => hlt.imp fun hlt heq => ?_, fun hne => (hsorted.and hne).imp_of_mem fun {m n} hm hn hmn => ?_⟩
    · rw [heq] at hlt
      exact UInt32.lt_irrefl _ hlt
    · -- A member is not after the next one, and has another index.
      have hle := horder m hm n hn ▸ hmn.1
      exact UInt32.lt_of_le_of_ne (Std.isLE_compare.mp hle) fun heq =>
        hmn.2 (h.indexOrNone_inj hsize (hmem m hm) (hmem n hn) heq)
  exact {
    order := by
      have hzip : (members.map fun m => p.indexOrNone (sig m)).zip members =
          members.map fun m => (p.indexOrNone (sig m), m) := by
        have hzip := List.zip_map' (f := fun m => p.indexOrNone (sig m)) (g := id) (l := members)
        rwa [List.map_id] at hzip
      rw [hzip]
      intro x hx y hy
      obtain ⟨m, hm, rfl⟩ := List.mem_map.mp hx
      obtain ⟨n, hn, rfl⟩ := List.mem_map.mp hy
      exact horder m hm n hn
    exists_iff := ⟨fun ⟨_, hds⟩ => hchain.mp (Members.isChain_of_deltas hds), fun hdistinct =>
      (Members.exists_deltas none (hchain.mpr hdistinct)).imp fun _ => And.left⟩
    fails := fun hdup => Members.deltas_eq_fail none (mt hchain.mp hdup)
    sums := Members.runningSums_of_deltas
    ascending := fun hds => by
      rw [Members.runningSums_of_deltas hds]
      exact Members.ascending_of_deltas hds }

end ranked

end Pool

end Dalvik
