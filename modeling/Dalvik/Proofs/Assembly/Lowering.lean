import Dalvik.Proofs.Class.Stable
import Dalvik.Proofs.Code.Writable
import Dalvik.Proofs.Leading
import Mathlib.Algebra.Order.BigOperators.Group.List

/-!
# Smaller indices make shorter forms

A numbering lowers another one (`Numbering.Lowers`) when it gives no reference a larger
index. Values, debug information and bodies that are written by the one are written by
the other too, if it has an index for what they name, and take up no more room.
-/

namespace Dalvik

open Result (Leads)

/-! ## Numberings -/

/-- The second numbering gives no reference a larger index than the first, whose indices
of strings and types have successors. -/
structure Numbering.Lowers (n m : Numbering) : Prop where
  le : ∀ {r i j}, n.indexOf r = .ok i → m.indexOf r = .ok j → j ≤ i
  string_lt : ∀ {s i}, n.string s = .ok i → i.toNat < extentBound
  type_lt : ∀ {d i}, n.type d = .ok i → i.toNat < extentBound

variable {n m : Numbering}

theorem Numbering.Lowers.leads (h : n.Lowers m) {r : Reference} (hr : ∀ e ∈ Entry.ofReference r, m.Indexes e) :
    Leads (fun i j => n.indexOf r = .ok i ∧ j ≤ i) (n.indexOf r) (m.indexOf r) := fun i hi => by
  obtain ⟨j, hj⟩ := m.exists_indexOf hr
  exact ⟨j, hj, hi, h.le hi hj⟩

theorem Numbering.Lowers.leads_string (h : n.Lowers m) {s : String} (hs : m.Indexes (.string s)) :
    Leads (fun i j => n.string s = .ok i ∧ j ≤ i) (n.string s) (m.string s) :=
  h.leads (r := .string s) (List.forall_mem_singleton.mpr hs)

theorem Numbering.Lowers.leads_type (h : n.Lowers m) {d : String} (hd : m.Indexes (.type d)) :
    Leads (fun i j => n.type d = .ok i ∧ j ≤ i) (n.type d) (m.type d) := fun i hi => by
  obtain ⟨j, hj⟩ := hd
  exact ⟨j, hj, hi, h.le (r := .type d) hi hj⟩

/-! ## Values -/

namespace Value

/-- The room of an element of an annotation. -/
def elementSize (n : ValueNumbering) (e : String × Value) : Nat :=
  (Write.uleb128 (n.place e.1)).length + ((e.2.encode n).toOption.getD []).length

/-- The room of the elements of an annotation does not depend on their order. -/
theorem length_parts {n : ValueNumbering} {elements : Elements} {parts : List (List UInt8)}
    (h : List.Forall₂ (fun e part => ∃ body, e.2.encode n = .ok body ∧ part = Write.uleb128 (n.place e.1) ++ body)
      (elements.indexed n) parts) : parts.flatten.length = (elements.map (elementSize n)).sum := by
  have hlengths : parts.map List.length = (elements.indexed n).map (elementSize n) := by
    refine (List.forall₂_eq_eq_eq ▸ List.forall₂_map_right_iff.mpr (List.forall₂_map_left_iff.mpr ?_) :
      (elements.indexed n).map (elementSize n) = parts.map List.length).symm
    refine h.imp fun e part ⟨body, hbody, hpart⟩ => ?_
    rw [hpart, List.length_append, elementSize, hbody]
    rfl
  rw [List.length_flatten, hlengths]
  exact ((List.mergeSort_perm ..).map _).sum_eq

theorem leads_encodeBody (h : n.Lowers m) {type : String} {elements : Elements} (htype : m.Indexes (.type type))
    (helements : ∀ e ∈ elements, m.Indexes (.string e.1) ∧
      Leads Shortens (e.2.encode n.toValueNumbering) (e.2.encode m.toValueNumbering)) :
    Leads Shortens (encodeBody n.toValueNumbering type elements) (encodeBody m.toValueNumbering type elements) := by
  intro form hform
  obtain ⟨typeIndex, parts, hindex, htypeIndex, hparts, rfl⟩ := exists_parts hform
  have hvalue : ∀ e ∈ elements, ∃ body, e.2.encode n.toValueNumbering = .ok body := fun e he => by
    obtain ⟨part, -, body, hbody, -⟩ := exists_mem_right hparts (List.mem_mergeSort.mpr he)
    exact ⟨body, hbody⟩
  obtain ⟨form', hform'⟩ := exists_encodeBody htype fun e he => by
    obtain ⟨body, hbody⟩ := hvalue e he
    obtain ⟨body', hbody', -⟩ := (helements e he).2 body hbody
    exact ⟨(helements e he).1, body', hbody'⟩
  refine ⟨form', hform', ?_⟩
  obtain ⟨typeIndex', parts', hindex', htypeIndex', hparts', rfl⟩ := exists_parts hform'
  refine ((Shortens.uleb128 (h.le (r := .type type) htypeIndex htypeIndex')).append .rfl).append ?_
  unfold Shortens
  rw [length_parts hparts, length_parts hparts']
  refine List.sum_le_sum fun e he => ?_
  obtain ⟨body, hbody⟩ := hvalue e he
  obtain ⟨body', hbody', hshort⟩ := (helements e he).2 body hbody
  have hname := Shortens.uleb128 (h.le (r := .string e.1) (hindex e he) (hindex' e he))
  rw [elementSize, elementSize, hbody, hbody']
  exact Nat.add_le_add hname hshort

theorem leads_writeIndex (tag : UInt8) {r : Reference} (h : n.Lowers m) (hr : ∀ e ∈ Entry.ofReference r, m.Indexes e) :
    Leads Shortens (writeIndex tag (n.indexOf r)) (writeIndex tag (m.indexOf r)) :=
  (h.leads hr).map fun _ _ hle => shortens_writeUnsigned tag hle.2

mutual

theorem leads_encode (h : n.Lowers m) (v : Value) (hv : ∀ e ∈ Entry.ofValue v, m.Indexes e) :
    Leads Shortens (v.encode n.toValueNumbering) (v.encode m.toValueNumbering) := by
  cases v with
  | proto q => exact leads_writeIndex _ (r := .proto q) h hv
  | handle k => exact leads_writeIndex _ (r := .handle k) h hv
  | string s => exact leads_writeIndex _ (r := .string s) h hv
  | type d => exact leads_writeIndex _ (r := .type d) h hv
  | field f | enum f => exact leads_writeIndex _ (r := .field f) h hv
  | method k => exact leads_writeIndex _ (r := .method k) h hv
  | array vs => exact (leads_encodeEach h vs hv).bind fun _ _ hbody => .ok ((Shortens.rfl.append hbody).cons _ _)
  | nested t es =>
    have hbody := leads_encodeBody h (hv _ (List.mem_append_left _ (Entry.type_mem_ofType t)))
      (leads_encodeElements h es fun e he => hv e (List.mem_append_right _ he))
    exact hbody.bind fun _ _ hbody => .ok (hbody.cons _ _)
  | _ => exact .ok .rfl

theorem leads_encodeEach (h : n.Lowers m) (vs : List Value) (hvs : ∀ e ∈ Entry.ofValues vs, m.Indexes e) :
    Leads Shortens (encodeEach n.toValueNumbering vs) (encodeEach m.toValueNumbering vs) := by
  match vs with
  | [] => exact .ok .rfl
  | v :: vs =>
    exact (leads_encode h v fun e he => hvs e (List.mem_append_left _ he)).bind fun _ _ hfirst =>
      (leads_encodeEach h vs fun e he => hvs e (List.mem_append_right _ he)).bind fun _ _ hrest =>
        .ok (hfirst.append hrest)

theorem leads_encodeElements (h : n.Lowers m) (es : Elements) (hes : ∀ e ∈ Entry.ofElements es, m.Indexes e) :
    ∀ e ∈ es, m.Indexes (.string e.1) ∧
      Leads Shortens (e.2.encode n.toValueNumbering) (e.2.encode m.toValueNumbering) := by
  match es with
  | [] => exact fun e he => nomatch he
  | (name, v) :: es =>
    obtain ⟨hname, hrest⟩ := List.forall_mem_cons.mp hes
    exact List.forall_mem_cons.mpr
      ⟨⟨hname, leads_encode h v fun e he => hrest e (List.mem_append_left _ he)⟩,
        leads_encodeElements h es fun e he => hrest e (List.mem_append_right _ he)⟩

end

theorem leads_encodeArray (h : n.Lowers m) {vs : List Value} (hvs : ∀ e ∈ Entry.ofValues vs, m.Indexes e) :
    Leads Shortens (encodeArray n.toValueNumbering vs) (encodeArray m.toValueNumbering vs) :=
  (leads_encodeEach h vs hvs).bind fun _ _ hbody => .ok (Shortens.rfl.append hbody)

end Value

/-! ## Debug information -/

namespace DebugInfo

theorem leads_writeString? (h : n.Lowers m) {s : Option String} (hs : ∀ e ∈ Entry.ofString? s, m.Indexes e) :
    Leads Shortens (writeString? n s) (writeString? m s) := by
  cases s with
  | none => exact .ok .rfl
  | some s =>
    exact (h.leads_string (hs (.string s) (List.mem_singleton_self _))).map fun i j hij =>
      .uleb128p1 hij.2 (h.string_lt hij.1)

theorem leads_writeType? (h : n.Lowers m) {d : Option String} (hd : ∀ e ∈ Entry.ofType? d, m.Indexes e) :
    Leads Shortens (writeType? n d) (writeType? m d) := by
  cases d with
  | none => exact .ok .rfl
  | some d =>
    have hindexes : m.Indexes (.type d) := hd (.type d) (List.mem_append_left _ (Entry.type_mem_ofType d))
    exact (h.leads_type hindexes).map fun i j hij => .uleb128p1 hij.2 (h.type_lt hij.1)

theorem leads_writeEvent (h : n.Lowers m) {event : DebugEvent} (hevent : ∀ e ∈ Entry.ofDebugEvent event, m.Indexes e) :
    Leads Shortens (writeEvent n event) (writeEvent m event) := by
  cases event with
  | startLocal register name type signature =>
    simp only [Entry.ofDebugEvent, List.mem_append] at hevent
    refine (leads_writeString? h fun e he => hevent e (.inl (.inl he))).bind fun name name' hname => ?_
    refine (leads_writeType? h fun e he => hevent e (.inr he)).bind fun type type' htype => ?_
    have hhead (tail tail' : List UInt8) (htail : Shortens tail tail') (b : UInt8) :
        Shortens (b :: Write.uleb128 register ++ name ++ type ++ tail)
          (b :: Write.uleb128 register ++ name' ++ type' ++ tail') :=
      ((Shortens.rfl.append hname).append htype).append htail
    cases signature with
    | none => exact .ok (hhead [] [] .rfl _)
    | some s =>
      exact (leads_writeString? h fun e he => hevent e (.inl (.inr he))).bind fun tail tail' htail =>
        .ok (hhead tail tail' htail _)
  | setFile name => exact (leads_writeString? h hevent).map fun _ _ hname => hname.cons _ _
  | _ => exact .ok .rfl

/-- Items are written alike but for the indices of what they name. -/
theorem leads_writeItem (h : n.Lowers m) (state : DebugState) {item : DebugItem}
    (hitem : ∀ e ∈ Entry.ofDebugEvent item.event, m.Indexes e) :
    Leads (fun written written' => Shortens written.1 written'.1 ∧ written.2 = written'.2)
      (writeItem n state item) (writeItem m state item) := by
  have hevent := leads_writeEvent h hitem
  unfold writeItem
  split
  · exact fun written hwritten => ⟨written, hwritten, .rfl, rfl⟩
  · refine Leads.bind (R := Eq) (fun move hmove => ⟨move, hmove, rfl⟩) fun move move' heq => ?_
    subst heq
    exact hevent.bind fun _ _ hform => .ok ⟨Shortens.rfl.append hform, rfl⟩

theorem leads_writeItems (h : n.Lowers m) {items : List DebugItem}
    (hitems : ∀ item ∈ items, ∀ e ∈ Entry.ofDebugEvent item.event, m.Indexes e) (state : DebugState) :
    Leads Shortens (writeItems n state items) (writeItems m state items) := by
  induction items generalizing state with
  | nil => exact .ok .rfl
  | cons item items ih =>
    rw [List.forall_mem_cons] at hitems
    refine (leads_writeItem h state hitems.1).bind fun (form, next) (form', next') ⟨hform, heq⟩ => ?_
    cases heq
    exact (ih hitems.2 next).bind fun _ _ hrest => .ok (hform.append hrest)

theorem leads_encode (h : n.Lowers m) {names : List (Option String)} {items : List DebugItem}
    (hnames : ∀ name ∈ names, ∀ e ∈ Entry.ofString? name, m.Indexes e)
    (hitems : ∀ item ∈ items, ∀ e ∈ Entry.ofDebugEvent item.event, m.Indexes e) :
    Leads Shortens (encode n names items) (encode m names items) :=
  (Leads.mapM_same fun name hname => leads_writeString? h (hnames name hname)).bind fun _ _ hforms =>
    (leads_writeItems h hitems _).bind fun _ _ hbody =>
      .ok (((Shortens.rfl.append .rfl).append (.flatten hforms)).append hbody)

end DebugInfo

end Dalvik
