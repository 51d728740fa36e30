import Dalvik.Image.Class
import Dalvik.Assembly.Members
import Dalvik.Proofs.Class.Kept
import Dalvik.Proofs.Value.RoundTrip
import Dalvik.Proofs.Value.Skip

/-!
# Lists of members are read in step

An entry of a list of members holds the difference of its index to the one before
it, and the initial values and the hidden API flags are lists that are read in
step with the entries. `StoredClass.entriesFrom_eq`: the entries of a written list
are read with their indices, and with what the other lists deliver for them.
-/

namespace Dalvik

/-! ## Running a step again and again -/

/-- Steps that go on from a state deliver, one after the other, what goes with the
items of a list. -/
def Delivers {σ α β : Type} (next : σ → Result (β × σ)) (R : β → α → Prop) : σ → List α → Prop
  | _, [] => True
  | s, a :: as => ∃ b s', next s = .ok (b, s') ∧ R b a ∧ Delivers next R s' as

/-- A state that delivers one thing and stays as it is delivers it as often as
wanted. -/
theorem Delivers.replicate {σ α β : Type} {next : σ → Result (β × σ)} {R : β → α → Prop} {s : σ} {b : β} {a : α}
    (h : next s = .ok (b, s)) (hR : R b a) (count : Nat) : Delivers next R s (List.replicate count a) := by
  induction count with
  | zero => exact trivial
  | succ count ih => exact ⟨b, s, h, hR, ih⟩

/-- The difference of an index to the one before it leads from there to the index,
in 32 bits. -/
theorem Members.exists_of_deltas_cons {cause : Cause} {previous : Option UInt32} {index : UInt32}
    {indices ds : List UInt32} (h : deltas cause previous (index :: indices) = .ok ds) :
    ∃ delta rest, ds = delta :: rest ∧ previous.getD 0 + delta = index ∧ (∀ before ∈ previous, before < index) ∧
      deltas cause (some index) indices = .ok rest := by
  cases previous with
  | none =>
    obtain ⟨_, ⟨⟩, h⟩ := Result.bind_eq_ok h
    obtain ⟨rest, hrest, h⟩ := Result.bind_eq_ok h
    cases h
    exact ⟨index, rest, rfl, UInt32.zero_add index, fun _ h => (nomatch h), hrest⟩
  | some before =>
    rw [deltas.eq_def] at h
    dsimp only at h
    split at h
    · cases h
    · obtain ⟨_, ⟨⟩, h⟩ := Result.bind_eq_ok h
      obtain ⟨rest, hrest, h⟩ := Result.bind_eq_ok h
      cases h
      refine ⟨_, rest, rfl, ?_, ?_, hrest⟩
      · show before + (index - before) = index
        rw [UInt32.add_comm, UInt32.sub_add_cancel]
      · rintro _ ⟨⟩
        exact UInt32.not_le.mp ‹_›

namespace Image

/-- The initial value at an offset, if there is any. -/
def valueAt (image : Image) : Option UInt32 → Result (Option Value)
  | none => .ok none
  | some offset => (image.readAt (Value.decode image.valueResolver) offset.toNat).map some

end Image

namespace StoredClass

open Read

variable {image : Image}

/-! ## Initial values -/

/-- Initial values that have been written one after the other are delivered, and
none behind them. -/
theorem delivers_nextValue {n : ValueNumbering} (hundoes : image.valueResolver.Undoes n) (hordered : n.Ordered)
    (hsize : image.bytes.size < extentBound) {vs : List Value} {body : List UInt8}
    (hvs : Value.encodeEach n vs = .ok body) {offset : Nat} (hheld : image.bytes.Holds offset body) (rest : Nat) :
    Delivers (nextValue image) (fun found v => image.valueAt found = .ok v) (some (UInt32.ofNat offset, vs.length))
      (vs.map (fun v => some v.arranged) ++ List.replicate rest none) := by
  induction vs generalizing offset body with
  | nil =>
    have hnext : nextValue image (some (UInt32.ofNat offset, 0)) = .ok (none, some (UInt32.ofNat offset, 0)) := rfl
    exact Delivers.replicate (R := fun found v => image.valueAt found = .ok v) hnext rfl rest
  | cons v vs ih =>
    obtain ⟨first, hfirst, hvs⟩ := Result.bind_eq_ok hvs
    obtain ⟨others, hothers, hvs⟩ := Result.bind_eq_ok hvs
    cases hvs
    have hle := hheld.left.le_size
    have hoffset := hheld.toNat_ofNat hsize
    have hdecode := Value.yields_decode hundoes hordered hfirst (by omega)
    have hskip : image.readAt (do Value.skip; Read.mark) (UInt32.ofNat offset).toNat =
        .ok (UInt32.ofNat (offset + first.length)) := by
      rw [hoffset]
      exact ((Value.skip_passes.yields hdecode).bind_mark fun _ offset => offset).at? hheld.left
    have hvalue : image.valueAt (some (UInt32.ofNat offset)) = .ok (some v.arranged) := by
      rw [Image.valueAt, hoffset]
      exact congrArg (Except.map some) (hdecode.at? hheld.left)
    refine ⟨_, _, ?_, hvalue, ih hothers hheld.right⟩
    rw [List.length_cons, nextValue, hskip]
    rfl

/-! ## Hidden API flags -/

/-- The restrictions of members, one after the other. -/
def writeRestrictions (restrictions : List HiddenApi) : List UInt8 :=
  restrictions.flatMap fun r => Write.uleb128 (UInt32.ofNat r.value)

/-- Restrictions that have been written one after the other are delivered. -/
theorem delivers_nextHidden (hsize : image.bytes.size < extentBound) {restrictions : List HiddenApi} {offset : Nat}
    (hheld : image.bytes.Holds offset (writeRestrictions restrictions)) :
    Delivers (nextHidden image) (fun flags r => hiddenApiOf flags = HiddenApi.reread r) (some (UInt32.ofNat offset))
      (restrictions.map some) := by
  induction restrictions generalizing offset with
  | nil => exact trivial
  | cons r restrictions ih =>
    have hoffset := hheld.toNat_ofNat hsize
    rw [writeRestrictions, List.flatMap_cons] at hheld
    have hread : nextHidden image (some (UInt32.ofNat offset)) = .ok (some (UInt32.ofNat r.value),
        some (UInt32.ofNat (offset + (Write.uleb128 (UInt32.ofNat r.value)).length))) := by
      rw [nextHidden, hoffset]
      exact ((yields_uleb128 (UInt32.ofNat r.value)).bind_mark fun flags offset => (some flags, some offset)).at?
        hheld.left
    refine ⟨_, _, hread, ?_, ih hheld.right⟩
    show (HiddenApi.ofValue (UInt32.ofNat r.value).toNat).map some = _
    rw [UInt32.toNat_ofNat_of_lt' r.value_lt]
    rfl

/-! ## Entries -/

/-- What the class data say of a member. -/
structure Own where
  index : UInt32
  flags : UInt32
  code : UInt32

/-- An entry of a list of members. -/
def writeOwn (kind : MemberKind) (delta : UInt32) (own : Own) : List UInt8 :=
  Write.uleb128 delta ++ (Write.uleb128 own.flags ++ if kind.isMethod then Write.uleb128 own.code else [])

/-- The numbers of an entry are small. -/
structure Own.Small (own : Own) : Prop where
  flags : own.flags.toNat < extentBound
  code : own.code.toNat < extentBound

theorem yields_readOwn (kind : MemberKind) (delta : UInt32) {own : Own} (h : own.Small) :
    Yields (readOwn kind) (writeOwn kind delta own)
      (delta, own.flags, if kind.isMethod then own.code.toNat else 0) := by
  refine (yields_uleb128 delta).bind ((yields_smallUleb128 h.flags).bind ?_)
  cases kind.isMethod with
  | false => exact .pure _
  | true => exact ((yields_smallUleb128 h.code).map UInt32.toNat).bind_pure _

theorem requires_readOwn (kind : MemberKind) (delta : UInt32) (own : Own) :
    Requires (readOwn kind) (writeOwn kind delta own) (own.flags.toNat < extentBound) :=
  (yields_uleb128 delta).bind_requires ((requires_smallUleb128 own.flags).bind_left _ _)

/-- An entry says of a member what the class data say, and leads to its initial
value and its restrictions. -/
structure IsEntry (image : Image) (kind : MemberKind) (own : Own) (value : Option Value) (hidden : Option HiddenApi)
    (entry : MemberEntry) : Prop where
  index : entry.index = own.index
  flags : entry.flags = own.flags
  codeOffset : entry.codeOffset = if kind.isMethod then own.code.toNat else 0
  value : image.valueAt entry.valueOffset = .ok value
  hidden : hiddenApiOf entry.hiddenFlags = HiddenApi.reread hidden

/-- An entry is read as it was written, with what the other lists deliver for it. -/
theorem nextEntry_of_held {kind : MemberKind} {delta : UInt32} {own : Own} (hsmall : own.Small) {cursor : MemberCursor}
    (hheld : image.bytes.Holds cursor.offset.toNat (writeOwn kind delta own))
    (hindex : cursor.previous + delta = own.index) {found : Option UInt32} {values : Option (UInt32 × Nat)}
    (hvalue : nextValue image cursor.values = .ok (found, values)) {flags hidden : Option UInt32}
    (hflags : nextHidden image cursor.hidden = .ok (flags, hidden)) :
    nextEntry image kind cursor =
      let last := UInt32.ofNat (cursor.offset.toNat + (writeOwn kind delta own).length)
      .ok (⟨own.index, own.flags, if kind.isMethod then own.code.toNat else 0, (last - cursor.offset).toNat, found, flags⟩,
        { offset := last, previous := own.index, values, hidden }) := by
  have hread : image.readAt (readEntry kind) cursor.offset.toNat = _ :=
    ((yields_readOwn kind delta hsmall).bind_mark Prod.mk).at? hheld
  rw [nextEntry, hread, Result.ok_bind]
  dsimp only
  rw [hvalue, Result.ok_bind, hflags, Result.ok_bind, hindex]
  rfl

section entries

variable (hsize : image.bytes.size < extentBound) {α : Type} {kind : MemberKind} {own : α → Own}
  {value : α → Option Value} {hidden : α → Option HiddenApi} {ms : List α} {cause : Cause} {previous : Option UInt32} {ds : List UInt32}
  (hdeltas : Members.deltas cause previous (ms.map fun m => (own m).index) = .ok ds) (cursor : MemberCursor)
  (hprevious : cursor.previous = previous.getD 0)
  (hheld : image.bytes.Holds cursor.offset.toNat (ds.zipWith (writeOwn kind) (ms.map own)).flatten)
  (hvalues : Delivers (nextValue image) (fun found v => image.valueAt found = .ok v) cursor.values (ms.map value))
  (hhidden : Delivers (nextHidden image) (fun flags r => hiddenApiOf flags = HiddenApi.reread r) cursor.hidden
    (ms.map hidden))

include hsize hdeltas hprevious hheld hvalues hhidden

/-- The entries of a list whose indices ascend are read as they were written, with
what the other lists deliver. -/
theorem entriesFrom_eq (hsmall : ∀ m ∈ ms, (own m).Small) :
    ∃ entries, entriesFrom image kind ms.length cursor = entries.map .ok ∧
      List.Forall₂ (fun m entry => IsEntry image kind (own m) (value m) (hidden m) entry) ms entries := by
  induction ms generalizing cursor previous ds with
  | nil => exact ⟨[], rfl, .nil⟩
  | cons m ms ih =>
    obtain ⟨delta, rest, rfl, hdelta, -, hrest⟩ := Members.exists_of_deltas_cons hdeltas
    obtain ⟨found, values, hvalue, hfound, hvalues⟩ := hvalues
    obtain ⟨flags, hiddenNext, hflags, hrestrictions, hhidden⟩ := hhidden
    rw [List.map_cons, List.zipWith_cons_cons, List.flatten_cons] at hheld
    have hnext := nextEntry_of_held (hsmall m List.mem_cons_self) hheld.left (hprevious ▸ hdelta) hvalue hflags
    have hbehind := hheld.right
    rw [← hbehind.toNat_ofNat hsize] at hbehind
    obtain ⟨entries, hentries, hall⟩ := ih hrest ⟨_, (own m).index, values, hiddenNext⟩ rfl hbehind hvalues hhidden
      (fun m hm => hsmall m (List.mem_cons_of_mem _ hm))
    rw [List.length_cons, entriesFrom, hnext]
    exact ⟨⟨_, _, _, _, found, flags⟩ :: entries, congrArg _ hentries,
      .cons ⟨rfl, rfl, rfl, hfound, hrestrictions⟩ hall⟩

/-- The entries of a list are read without a failure only if the flags are small. -/
theorem flags_lt_of_entriesFrom (hcode : ∀ m ∈ ms, (own m).code.toNat < extentBound)
    (hclean : Result.Clean (entriesFrom image kind ms.length cursor)) :
    ∀ m ∈ ms, (own m).flags.toNat < extentBound := by
  induction ms generalizing cursor previous ds with
  | nil => exact fun _ hm => nomatch hm
  | cons m ms ih =>
    obtain ⟨delta, rest, rfl, hdelta, -, hrest⟩ := Members.exists_of_deltas_cons hdeltas
    obtain ⟨found, values, hvalue, -, hvalues⟩ := hvalues
    obtain ⟨flags, hiddenNext, hflags, -, hhidden⟩ := hhidden
    rw [List.map_cons, List.zipWith_cons_cons, List.flatten_cons] at hheld
    rw [List.length_cons, entriesFrom] at hclean
    have hfirst : (own m).flags.toNat < extentBound := by
      split at hclean
      · rename_i hnext
        obtain ⟨_, hread, -⟩ := Result.bind_eq_ok hnext
        exact ((requires_readOwn kind delta (own m)).bind_nil _).at? hheld.left hread
      · obtain ⟨_, herror⟩ := hclean _ (List.mem_singleton_self _)
        cases herror
    have hnext := nextEntry_of_held ⟨hfirst, hcode m List.mem_cons_self⟩ hheld.left (hprevious ▸ hdelta) hvalue hflags
    rw [hnext] at hclean
    have hbehind := hheld.right
    rw [← hbehind.toNat_ofNat hsize] at hbehind
    refine List.forall_mem_cons.mpr ⟨hfirst, ih hrest ⟨_, (own m).index, values, hiddenNext⟩ rfl hbehind hvalues
      hhidden (fun m hm => hcode m (List.mem_cons_of_mem _ hm)) fun r hr => hclean r (List.mem_cons_of_mem _ hr)⟩

end entries

end StoredClass

end Dalvik
