import Dalvik.DebugInfo
import Dalvik.Image.Code
import Dalvik.Proofs.Layout
import Dalvik.Proofs.Value.RoundTrip

/-!
# Debug information is read as it was written

The program for an item moves the debug machine and then yields the item
(`DebugInfo.runs_writeItem`). Run from its start, the whole program yields all items
and ends (`DebugInfo.debugItems_eq`).
-/

namespace Dalvik

/-- The register that an event is about. -/
def DebugEvent.register? : DebugEvent → Option UInt32
  | startLocal register .. => some register
  | endLocal register => some register
  | restartLocal register => some register
  | _ => none

/-- What the reader demands of debug items behind an address: the way from each
address to the next is short, and the registers are small. -/
structure DebugItem.Readable (address : UInt32) (items : List DebugItem) : Prop where
  steps : List.IsChain (fun a b => (b - a).toNat < extentBound) (address :: items.map (·.address))
  registers : ∀ item ∈ items, ∀ r ∈ item.event.register?, r.toNat < extentBound

/-- The image has each string and each type behind the index that the numbering gives it. -/
structure Image.Agrees (image : Image) (n : Numbering) : Prop where
  string : ∀ {s i}, n.string s = .ok i → image.string i = .ok s
  type : ∀ {d i}, n.type d = .ok i → image.type i = .ok d

theorem ValueResolver.Undoes.agrees {image : Image} {n : Numbering}
    (h : image.valueResolver.Undoes n.toValueNumbering) : image.Agrees n where
  string hs := (h.string hs).2
  type hd := (h.type hd).2

/-- A section has no item behind the index of nothing. -/
theorem Image.ne_noIndex_of_sectionOffset {s : Section} {what : String} {index : UInt32} {size offset : Nat}
    (h : Image.sectionOffset s what index size = .ok offset) : index ≠ noIndex := by
  rintro rfl
  have hle : s.size.toNat ≤ noIndex.toNat := Nat.le_of_lt_succ s.size.toNat_lt
  rw [Image.sectionOffset, Image.itemOffset, if_neg (UInt32.not_lt.mpr (UInt32.le_iff_toNat_le.mpr hle))] at h
  cases h

namespace DebugInfo

open Read Result StoredCode

variable {n : Numbering} {image : Image}

/-! ## Strings and types that may be missing -/

section references

variable (hagrees : image.Agrees n)

include hagrees

theorem yields_readString? {s : Option String} {form : List UInt8} (h : writeString? n s = .ok form) :
    Yields (readString? image) form s := by
  cases s with
  | none =>
    cases h
    exact (yields_uleb128p1 (-1)).bind_nil (Value.yields_ofResult rfl)
  | some s =>
    obtain ⟨index, hindex, rfl⟩ := map_eq_ok h
    have hstring := hagrees.string hindex
    obtain ⟨id, hid, -⟩ := bind_eq_ok hstring
    have hfound : image.string? index.toInt32.toUInt32 = .ok (some s) := by
      rw [UInt32.toUInt32_toInt32, Image.string?, if_neg (Image.ne_noIndex_of_sectionOffset hid)]
      exact congrArg (Except.map some) hstring
    exact (yields_uleb128p1 _).bind_nil (Value.yields_ofResult hfound)

theorem yields_readType? {d : Option String} {form : List UInt8} (h : writeType? n d = .ok form) :
    Yields (readType? image) form d := by
  cases d with
  | none =>
    cases h
    exact (yields_uleb128p1 (-1)).bind_nil (Value.yields_ofResult rfl)
  | some d =>
    obtain ⟨index, hindex, rfl⟩ := map_eq_ok h
    have htype := hagrees.type hindex
    obtain ⟨id, hid, -⟩ := bind_eq_ok htype
    have hfound : image.type? index.toInt32.toUInt32 = .ok (some d) := by
      rw [UInt32.toUInt32_toInt32, Image.type?, if_neg (Image.ne_noIndex_of_sectionOffset hid)]
      exact congrArg (Except.map some) htype
    exact (yields_uleb128p1 _).bind_nil (Value.yields_ofResult hfound)

end references

/-! ## Runs of the debug machine -/

/-- Where the program `form` stands, the machine passes from one state to another
and yields some items. -/
def Runs (image : Image) (state : DebugState) (form : List UInt8) (items : List DebugItem) (next : DebugState) : Prop :=
  ∀ (offset fuel : Nat), image.bytes.Holds offset form → form.length ≤ fuel →
    ∃ rest, fuel ≤ rest + form.length ∧
      debugFrom image fuel state offset = items.map .ok ++ debugFrom image rest next (offset + form.length)

namespace Runs

variable {state next last : DebugState} {form form' : List UInt8} {items items' : List DebugItem}

theorem nil (image : Image) (state : DebugState) : Runs image state [] [] state := fun _ fuel _ _ =>
  ⟨fuel, Nat.le_refl _, rfl⟩

theorem append (h : Runs image state form items next) (h' : Runs image next form' items' last) :
    Runs image state (form ++ form') (items ++ items') last := fun offset fuel hbytes hfuel => by
  rw [List.length_append] at hfuel
  obtain ⟨rest, hrest, heq⟩ := h offset fuel hbytes.left (by omega)
  obtain ⟨rest', hrest', heq'⟩ := h' _ rest hbytes.right (by omega)
  refine ⟨rest', ?_, ?_⟩
  · rw [List.length_append]
    omega
  · rw [heq, heq', List.map_append, List.append_assoc, List.length_append, Nat.add_assoc]

theorem of_move (h : Yields (readDebug image state) form (.move next)) (hne : form ≠ []) :
    Runs image state form [] next := fun offset fuel hbytes hfuel => by
  have hpos := List.length_pos_iff.mpr hne
  obtain ⟨fuel, rfl⟩ := Nat.exists_eq_add_one_of_ne_zero (show fuel ≠ 0 by omega)
  refine ⟨fuel, by omega, ?_⟩
  rw [debugFrom, h _ _ hbytes]
  rfl

theorem of_emit {item : DebugItem} (h : Yields (readDebug image state) form (.emit item next)) (hne : form ≠ []) :
    Runs image state form [item] next := fun offset fuel hbytes hfuel => by
  have hpos := List.length_pos_iff.mpr hne
  obtain ⟨fuel, rfl⟩ := Nat.exists_eq_add_one_of_ne_zero (show fuel ≠ 0 by omega)
  refine ⟨fuel, by omega, ?_⟩
  rw [debugFrom, h _ _ hbytes]
  rfl

end Runs

/-! ## Operations -/

section operations

variable {state : DebugState}

theorem runs_address {step : UInt32} (h : step.toNat < extentBound) :
    Runs image state (0x01 :: Write.uleb128 step) [] { state with address := state.address + step } :=
  .of_move ((yields_ubyte 0x01).bind ((yields_smallUleb128 h).bind_pure _)) (List.cons_ne_nil _ _)

theorem runs_line (step : Int32) :
    Runs image state (0x02 :: Write.sleb128 step) [] { state with line := state.line + step.toUInt32 } :=
  .of_move ((yields_ubyte 0x02).bind ((yields_sleb128 step).bind_pure _)) (List.cons_ne_nil _ _)

/-- One operation moves the address and the line by small steps and yields the
line. -/
theorem runs_special (a l : UInt32) {addressStep : Nat} {lineStep : Int} (hlow : -4 ≤ lineStep) (hhigh : lineStep ≤ 10)
    (hlong : addressStep ≤ longestWay lineStep) : Runs image ⟨a, l⟩
      [UInt8.ofNat (DebugState.firstSpecial + addressStep * DebugState.lineRange +
        (lineStep - DebugState.lineBase).toNat)]
      [⟨a + UInt32.ofNat addressStep, .line (l + UInt32.ofInt lineStep)⟩]
      ⟨a + UInt32.ofNat addressStep, l + UInt32.ofInt lineStep⟩ := by
  unfold longestWay at hlong
  unfold DebugState.firstSpecial DebugState.lineRange DebugState.lineBase
  obtain ⟨op, hop⟩ : ∃ op, op = 0x0a + addressStep * 15 + (lineStep - -4).toNat := ⟨_, rfl⟩
  have hlt : op < 0x100 := by
    split at hlong <;> omega
  have hline : (-4 + ((op - 0x0a) % 15 : Nat) : Int) = lineStep := by omega
  have haddress : (op - 0x0a) / 15 = addressStep := by omega
  rw [← hop]
  refine .of_emit ((yields_ubyte (UInt8.ofNat op)).bind_nil ?_) (List.cons_ne_nil _ _)
  rw [UInt8.toNat_ofNat_of_lt' hlt]
  dsimp only
  split
  case h_11 =>
    unfold DebugState.firstSpecial DebugState.lineRange DebugState.lineBase
    rw [hline, haddress]
    exact .pure _
  all_goals omega

/-- The operation of any other event, at the address that the machine is at. -/
theorem runs_event (hagrees : image.Agrees n) {event : DebugEvent}
    (hevent : ∀ line, event ≠ .line line) (hregister : ∀ r ∈ event.register?, r.toNat < extentBound)
    {form : List UInt8} (h : writeEvent n event = .ok form) :
    Runs image state form [⟨state.address, event⟩] state := by
  cases event with
  | startLocal register name type signature =>
    have hsmall : register.toNat < extentBound := hregister register rfl
    obtain ⟨nameForm, hname, h⟩ := bind_eq_ok h
    obtain ⟨typeForm, htype, h⟩ := bind_eq_ok h
    have hnameRead := yields_readString? hagrees hname
    have htypeRead := yields_readType? hagrees htype
    cases signature with
    | none =>
      cases h
      refine .of_emit ?_ (List.cons_ne_nil _ _)
      simp only [Option.isSome_none, Bool.false_eq_true, if_false, List.append_nil, List.cons_append, List.append_assoc]
      refine (yields_ubyte 0x03).bind ?_
      exact (yields_smallUleb128 hsmall).bind (hnameRead.bind (htypeRead.bind_pure _))
    | some s =>
      obtain ⟨signatureForm, hsignature, h⟩ := bind_eq_ok h
      cases h
      refine .of_emit ?_ (List.cons_ne_nil _ _)
      simp only [Option.isSome_some, if_true, List.cons_append, List.append_assoc]
      refine (yields_ubyte 0x04).bind ?_
      exact (yields_smallUleb128 hsmall).bind (hnameRead.bind (htypeRead.bind
        ((yields_readString? hagrees hsignature).bind_pure _)))
  | endLocal register =>
    cases h
    refine .of_emit ((yields_ubyte 0x05).bind ?_) (List.cons_ne_nil _ _)
    exact (yields_smallUleb128 (hregister register rfl)).bind_pure _
  | restartLocal register =>
    cases h
    refine .of_emit ((yields_ubyte 0x06).bind ?_) (List.cons_ne_nil _ _)
    exact (yields_smallUleb128 (hregister register rfl)).bind_pure _
  | prologueEnd =>
    cases h
    exact .of_emit ((yields_ubyte 0x07).bind_nil (.pure _)) (List.cons_ne_nil _ _)
  | epilogueBegin =>
    cases h
    exact .of_emit ((yields_ubyte 0x08).bind_nil (.pure _)) (List.cons_ne_nil _ _)
  | setFile name =>
    obtain ⟨nameForm, hname, rfl⟩ := map_eq_ok h
    refine .of_emit ((yields_ubyte 0x09).bind ?_) (List.cons_ne_nil _ _)
    exact (yields_readString? hagrees hname).bind_pure _
  | line line => exact absurd rfl (hevent line)

end operations

/-! ## Items -/

theorem ofInt_toInt (v : Int32) : UInt32.ofInt v.toInt = v.toUInt32 := by
  apply UInt32.toNat_inj.mp
  show (BitVec.ofNat 32 (v.toBitVec.toInt % 2 ^ 32).toNat).toNat = v.toBitVec.toNat
  rw [BitVec.toNat_ofNat, BitVec.toInt_eq_toNat_cond]
  split <;> omega

theorem add_sub_self (a b : UInt32) : a + (b - a) = b := by
  rw [UInt32.add_comm, UInt32.sub_add_cancel]

section lines

variable (a l address line : UInt32)

/-- If the way to a line is long, the machine makes it before the last operation. -/
theorem runs_lineMove (small : Bool) :
    Runs image ⟨a, l⟩ (if small then [] else 0x02 :: Write.sleb128 (line - l).toInt32) []
      ⟨a, if small then l else line⟩ := by
  cases small with
  | true => exact .nil image ⟨a, l⟩
  | false =>
    have : Runs image ⟨a, l⟩ _ _ _ := runs_line (line - l).toInt32
    rwa [UInt32.toUInt32_toInt32, add_sub_self] at this

/-- If the way to an address is long, the machine makes it before the last
operation. -/
theorem runs_addressMove (hway : (address - a).toNat < extentBound) (short : Prop) [Decidable short] :
    Runs image ⟨a, l⟩ (if short then [] else 0x01 :: Write.uleb128 (address - a)) []
      ⟨if short then a else address, l⟩ := by
  split
  · exact .nil image ⟨a, l⟩
  · have : Runs image ⟨a, l⟩ _ _ _ := runs_address hway
    rwa [add_sub_self] at this

theorem line_add_step (small : Bool) :
    (if small then l else line) + UInt32.ofInt (if small then (line - l).toInt32.toInt else 0) = line := by
  cases small with
  | true =>
    simp only [if_true, ofInt_toInt, UInt32.toUInt32_toInt32]
    exact add_sub_self l line
  | false => exact UInt32.add_zero line

theorem address_add_step (short : Prop) [Decidable short] :
    (if short then a else address) + UInt32.ofNat (if short then (address - a).toNat else 0) = address := by
  split
  · rw [UInt32.ofNat_toNat]
    exact add_sub_self a address
  · simp

theorem addressStep_le (longest : Nat) :
    (if (address - a).toNat ≤ longest then (address - a).toNat else 0) ≤ longest := by
  split <;> omega

theorem lineStep_bounds {delta lineStep : Int} (h : lineStep = if isSmallStep delta then delta else 0) :
    -4 ≤ lineStep ∧ lineStep ≤ 10 := by
  subst h
  unfold isSmallStep DebugState.lineBase DebugState.lineRange
  split
  · rename_i hsmall
    simp only [Bool.and_eq_true, decide_eq_true_eq] at hsmall
    omega
  · omega

/-- The operations that yield a line. -/
theorem runs_writeLine {next : DebugState} {form : List UInt8} (h : writeLine ⟨a, l⟩ address line = .ok (form, next))
    (hway : (address - a).toNat < extentBound) :
    next = ⟨address, line⟩ ∧ Runs image ⟨a, l⟩ form [⟨address, .line line⟩] next := by
  unfold writeLine at h
  split at h
  · cases h
  · cases h
    refine ⟨rfl, ?_⟩
    obtain ⟨small, hsmall⟩ : ∃ small, isSmallStep (line - l).toInt32.toInt = small := ⟨_, rfl⟩
    obtain ⟨lineStep, hlineStep⟩ : ∃ step, (if small then (line - l).toInt32.toInt else 0) = step := ⟨_, rfl⟩
    dsimp only
    rw [hsmall, hlineStep]
    obtain ⟨hlow, hhigh⟩ := lineStep_bounds (hsmall ▸ hlineStep.symm)
    have hline := line_add_step l line small
    have haddress := address_add_step a address ((address - a).toNat ≤ longestWay lineStep)
    rw [hlineStep] at hline
    have hspecial : Runs image _ _ _ _ := runs_special
      (if (address - a).toNat ≤ longestWay lineStep then a else address) (if small then l else line)
      hlow hhigh (addressStep_le a address _)
    rw [hline, haddress] at hspecial
    exact ((runs_lineMove a l line small).append (runs_addressMove a _ address hway _)).append hspecial

end lines

/-! ## Items -/

section items

variable (hagrees : image.Agrees n)

theorem runs_advance {state next : DebugState} {address : UInt32} {form : List UInt8}
    (h : advance state address = .ok (form, next)) (hway : (address - state.address).toNat < extentBound) :
    next.address = address ∧ Runs image state form [] next := by
  unfold advance at h
  split at h
  · cases h
  · split at h
    · rename_i heq
      cases h
      exact ⟨heq.symm, .nil image state⟩
    · cases h
      have hrun : Runs image state _ _ _ := runs_address hway
      rw [add_sub_self] at hrun
      exact ⟨rfl, hrun⟩

include hagrees

theorem runs_writeItem {state next : DebugState} {item : DebugItem} {form : List UInt8}
    (h : writeItem n state item = .ok (form, next))
    (hway : (item.address - state.address).toNat < extentBound)
    (hregister : ∀ r ∈ item.event.register?, r.toNat < extentBound) :
    next.address = item.address ∧ Runs image state form [item] next := by
  unfold writeItem at h
  split at h
  · rename_i line heq
    obtain ⟨rfl, hrun⟩ := runs_writeLine _ _ _ _ h hway
    rw [← heq] at hrun
    exact ⟨rfl, hrun⟩
  · rename_i hline
    obtain ⟨⟨move, moved⟩, hmove, h⟩ := bind_eq_ok h
    obtain ⟨event, hevent, h⟩ := bind_eq_ok h
    cases h
    obtain ⟨haddress, hrun⟩ := runs_advance hmove hway
    have hemit : Runs image next event _ _ := runs_event hagrees hline hregister hevent
    rw [haddress] at hemit
    exact ⟨haddress, hrun.append hemit⟩

/-- The program of some items yields them, and only its end is left. -/
theorem runs_writeItems {state : DebugState} {items : List DebugItem} {form : List UInt8}
    (h : writeItems n state items = .ok form) (hitems : DebugItem.Readable state.address items) :
    ∃ body last, form = body ++ [0x00] ∧ Runs image state body items last := by
  induction items generalizing state form with
  | nil =>
    cases h
    exact ⟨[], state, rfl, .nil image state⟩
  | cons item items ih =>
    obtain ⟨⟨first, next⟩, hfirst, h⟩ := bind_eq_ok h
    obtain ⟨rest, hrest, h⟩ := bind_eq_ok h
    cases h
    obtain ⟨hway, hsteps⟩ := List.isChain_cons_cons.mp hitems.steps
    obtain ⟨hregister, hregisters⟩ := List.forall_mem_cons.mp hitems.registers
    obtain ⟨haddress, hrun⟩ := runs_writeItem hagrees hfirst hway hregister
    obtain ⟨body, last, rfl, hbody⟩ := ih hrest ⟨haddress ▸ hsteps, hregisters⟩
    exact ⟨first ++ body, last, (List.append_assoc ..).symm, hrun.append hbody⟩

end items

/-! ## Whole programs -/

theorem exists_of_encode {names : List (Option String)} {items : List DebugItem} {form : List UInt8}
    (h : encode n names items = .ok form) : ∃ names' body, names.mapM (writeString? n) = .ok names' ∧
      writeItems n ⟨0, firstLine items⟩ items = .ok body ∧
      form = Write.uleb128 (firstLine items) ++ (Write.uleb128 (UInt32.ofNat names.length) ++ (names'.flatten ++ body)) := by
  obtain ⟨names', hnames, h⟩ := bind_eq_ok h
  obtain ⟨body, hbody, h⟩ := bind_eq_ok h
  refine ⟨names', body, hnames, hbody, ?_⟩
  rw [← Except.ok.inj h, List.append_assoc, List.append_assoc]

section programs

theorem toNat_count {count : Nat} (h : count < extentBound) : (UInt32.ofNat count).toNat = count :=
  UInt32.toNat_ofNat_of_lt' (Nat.lt_trans h (by decide))

theorem yields_skipString {s : Option String} {form : List UInt8} (h : writeString? n s = .ok form) :
    Yields (discard uleb128) form () ∧ form ≠ [] := by
  obtain ⟨v, rfl⟩ : ∃ v, form = Write.uleb128p1 v := by
    cases s with
    | none =>
      cases h
      exact ⟨_, rfl⟩
    | some s =>
      obtain ⟨index, -, rfl⟩ := map_eq_ok h
      exact ⟨_, rfl⟩
  exact ⟨(yields_uleb128 _).discard, Leb128.encodeUnsigned_ne_nil _⟩

/-- The forms of the names of parameters. -/
theorem skips_of_mapM {names : List (Option String)} {forms : List (List UInt8)}
    (h : names.mapM (writeString? n) = .ok forms) :
    (∀ form ∈ forms, Yields (discard uleb128) form ()) ∧ forms.length = names.length ∧
      names.length ≤ forms.flatten.length := by
  have hforms := forall₂_of_mapM h
  have hskip : ∀ form ∈ forms, Yields (discard uleb128) form () ∧ form ≠ [] := by
    intro form hform
    obtain ⟨name, -, hname⟩ := exists_mem_left hforms hform
    exact yields_skipString hname
  refine ⟨fun form hform => (hskip form hform).1, hforms.length_eq.symm, ?_⟩
  rw [hforms.length_eq]
  exact length_le_length_flatten fun form hform => (hskip form hform).2

/-- Each name of a parameter takes a byte, so there are few of them in a small file. -/
theorem length_names_lt {names : List (Option String)} {items : List DebugItem} {form : List UInt8} {bytes : Bytes}
    {offset : Nat} (h : encode n names items = .ok form) (hbytes : bytes.Holds offset form)
    (hsize : bytes.size < extentBound) : names.length < extentBound := by
  obtain ⟨forms, body, hnames, -, rfl⟩ := exists_of_encode h
  obtain ⟨-, -, hcount⟩ := skips_of_mapM hnames
  have hle := hbytes.right.right.left.le_size
  omega

variable {c : StoredCode} {names : List (Option String)} {items : List DebugItem} {form : List UInt8}
  (hagrees : c.image.Agrees n) (h : encode n names items = .ok form)
  (hbytes : c.image.bytes.Holds c.debugOffset form) (hcount : names.length < extentBound)
  (hne : c.debugOffset ≠ 0) (hline : (firstLine items).toNat < extentBound)

include hagrees h hbytes hcount hne hline

omit hline in
/-- The names of the parameters are read as they were written. -/
theorem parameterNames_eq : c.parameterNames = .ok names := by
  obtain ⟨forms, body, hnames, -, rfl⟩ := exists_of_encode h
  have hnat := toNat_count hcount
  have hread : List.Forall₂ (Yields (readString? c.image)) forms names :=
    ((forall₂_of_mapM hnames).imp fun _ _ hname => yields_readString? hagrees hname).flip
  rw [← List.append_assoc, ← List.append_assoc] at hbytes
  rw [parameterNames, if_neg hne]
  refine Yields.at? ?_ hbytes.left
  rw [List.append_assoc]
  refine (yields_uleb128 _).discard.bind ((yields_smallUleb128 (hnat.symm ▸ hcount)).bind ?_)
  rw [hnat]
  exact Yields.times hread

omit hagrees in
/-- The program stands behind the first line and the names of the parameters. -/
theorem exists_program : ∃ program start, writeItems n ⟨0, firstLine items⟩ items = .ok program ∧
    c.image.bytes.Holds start program ∧
    c.debugItems = debugFrom c.image (c.image.bytes.size + 1) ⟨0, firstLine items⟩ start := by
  obtain ⟨forms, program, hnames, hprogram, rfl⟩ := exists_of_encode h
  obtain ⟨hskip, hlength, -⟩ := skips_of_mapM hnames
  have hnat := toNat_count hcount
  have hnames : Yields (Read.repeated (discard uleb128) (UInt32.ofNat names.length).toNat) forms.flatten () := by
    rw [hnat, ← hlength]
    exact Yields.repeated hskip
  rw [← List.append_assoc, ← List.append_assoc] at hbytes
  refine ⟨program, _, hprogram, hbytes.right, ?_⟩
  unfold debugItems
  dsimp only [Image.readAt]
  rw [if_neg hne, YieldsAt.at? (?_ : YieldsAt _ _ (Prod.mk (firstLine items))) hbytes.left]
  rw [List.append_assoc]
  refine (yields_smallUleb128 hline).bind_at ((yields_smallUleb128 (hnat.symm ▸ hcount)).bind_at ?_)
  exact hnames.bind_tell fun _ start => (firstLine items, start)

/-- The items are read as they were written. -/
theorem debugItems_eq (hitems : DebugItem.Readable 0 items) : c.debugItems = items.map .ok := by
  obtain ⟨program, start, hprogram, hheld, heq⟩ := exists_program h hbytes hcount hne hline
  obtain ⟨body, last, rfl, hrun⟩ := runs_writeItems hagrees hprogram hitems
  have hend := hheld.le_size
  rw [List.length_append, List.length_singleton] at hend
  obtain ⟨rest, hrest, hread⟩ := hrun start (c.image.bytes.size + 1) hheld.left (by omega)
  obtain ⟨rest, rfl⟩ := Nat.exists_eq_add_one_of_ne_zero (show rest ≠ 0 by omega)
  have hstop : Yields (readDebug c.image last) [0x00] .stop := (yields_ubyte 0x00).bind_nil (.pure _)
  rw [heq, hread, debugFrom, hstop _ _ hheld.right]
  exact List.append_nil _

end programs

end DebugInfo

end Dalvik
