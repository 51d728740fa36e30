import Dalvik.Proofs.Code.Debug
import Dalvik.Proofs.Code.Item

/-!
# The numbers of a body that is read are small

The writer gives addresses, registers and lines in full, and the readers reject those
that are not below `extentBound`. So a body whose try blocks and debug information have
been read has small numbers only (`Shows.tries_readable`,
`DebugInfo.readable_of_debugItems`): together with what the writer sees to, these are all
that the readers demand (`Code.Sound.readable`).
-/

namespace Dalvik

/-- What does not depend on the size of numbers: instructions are sound, and every try
block has a handler. -/
structure Code.Sound (c : Code) : Prop where
  instructions : ∀ i ∈ c.instructions, i.Sound
  handlers : ∀ t ∈ c.tries, t.handlers ≠ []

/-- The numbers of a body that the readers take up to `extentBound`. -/
structure Code.Small (c : Code) : Prop where
  starts : ∀ t ∈ c.tries, t.start.toNat < extentBound
  addresses : ∀ t ∈ c.tries, ∀ h ∈ t.handlers, h.address.toNat < extentBound
  debug : DebugItem.Readable 0 c.debug
  line_lt : (DebugInfo.firstLine c.debug).toNat < extentBound

namespace Code

variable {c : Code}

theorem Sound.tries (h : c.Sound) (hsmall : c.Small) : ∀ t ∈ c.tries, t.Readable := fun t ht =>
  ⟨hsmall.starts t ht, h.handlers t ht, hsmall.addresses t ht⟩

/-- A sound body with small numbers whose references are arranged can be read. -/
theorem Sound.readable (h : c.Sound) (hsmall : c.Small)
    (harranged : ∀ i ∈ c.instructions, ∀ slot ∈ i.slots, slot.2.arranged = slot.2) : c.Readable where
  instructions i hi :=
    ⟨(h.instructions i hi).opcode_mem, fun slot hslot =>
      ⟨(h.instructions i hi).kinds slot hslot, harranged i hi slot hslot⟩⟩
  tries := h.tries hsmall
  debug := hsmall.debug
  line_lt := hsmall.line_lt

end Code

namespace CodeItem

open Read Result StoredCode

variable {n : Numbering} {image : Image}

/-! ## Try blocks -/

theorem requires_readTyped (htypes : image.ReadsTypes n) {h : Handler}
    (htype : h.type.isSome) {form : List UInt8} (hform : writeTyped n h = .ok form) :
    Requires (readTyped image) form (h.address.toNat < extentBound) := by
  obtain ⟨d, index, -, hindex, rfl⟩ := exists_of_writeTyped htype hform
  obtain ⟨hlt, hfound⟩ := htypes hindex
  refine (yields_smallUleb128 hlt).bind_requires ?_
  exact (Value.yields_ofResult hfound).bind_requires ((requires_smallUleb128 h.address).bind_nil _)

/-- The handlers of a try block are read only if their addresses are small. -/
theorem requires_readHandlers (htypes : image.ReadsTypes n) {handlers : List Handler}
    (hne : handlers ≠ []) {form : List UInt8} (hform : writeHandlers n handlers = .ok form)
    (htyped : (handlers.filter (·.type.isSome)).length < extentBound) :
    Requires (readHandlers image) form (∀ h ∈ handlers, h.address.toNat < extentBound) := by
  obtain ⟨size, entries, last, rfl, hentries, hsize, hlast⟩ := exists_parts_of_writeHandlers hne hform htyped
  have hread : List.Forall₂ (fun form (h : Handler) => Requires (readTyped image) form (h.address.toNat < extentBound) ∧
      (h.address.toNat < extentBound → Yields (readTyped image) form h)) entries (handlers.filter (·.type.isSome)) := by
    refine (forall₂_imp_of_mem (forall₂_of_mapM hentries) fun h hh entry _ hentry => ?_).flip
    have htype := (List.mem_filter.mp hh).2
    exact ⟨requires_readTyped htypes htype hentry, fun haddress => yields_readTyped htypes htype haddress hentry⟩
  have hsmall := Requires.times hread
  have htimes : (∀ h ∈ handlers.filter (·.type.isSome), h.address.toNat < extentBound) →
      Yields (Read.times (readTyped image) (handlers.filter (·.type.isSome)).length) entries.flatten
        (handlers.filter (·.type.isSome)) := fun hall =>
    Yields.times (forall₂_imp_of_mem hread fun _ _ h hh hboth => hboth.2 (hall h hh))
  refine (yields_sleb128 size).bind_requires ?_
  dsimp only
  rw [hsize]
  -- every handler is of one of the two sorts
  have hsorts : ∀ h ∈ handlers, h ∈ handlers.filter (·.type.isSome) ∨ h ∈ handlers.filter (·.type.isNone) := by
    intro h hh
    rw [List.mem_filter, List.mem_filter]
    cases htype : h.type with
    | none => exact .inr ⟨hh, rfl⟩
    | some d => exact .inl ⟨hh, rfl⟩
  rcases hlast with ⟨-, hnone, rfl⟩ | ⟨address, hle, hnone, rfl⟩
  · refine (hsmall.bind_left _ []).mono fun hall h hh => ?_
    rcases hsorts h hh with hh | hh
    · exact hall h hh
    · rw [hnone] at hh
      cases hh
  · refine (hsmall.bind htimes (Q := address.toNat < extentBound) ?_).mono fun hall h hh => ?_
    · rw [if_pos hle]
      exact (requires_smallUleb128 address).bind_nil _
    · rcases hsorts h hh with hh | hh
      · exact hall.1 h hh
      · rw [hnone, List.mem_singleton] at hh
        rw [hh]
        exact hall.2

/-- A try block is read only if its address and those of its handlers are small. -/
theorem requires_readTry {c : StoredCode} (hundoes : c.image.valueResolver.Undoes n.toValueNumbering) {t : TryBlock}
    (hne : t.handlers ≠ []) {place : UInt16} {entry : List UInt8} (hentry : writeHandlers n t.handlers = .ok entry)
    (hlength : entry.length < extentBound) (hheld : c.image.bytes.Holds (c.handlersStart + place.toNat) entry)
    (index : Nat) : Requires (c.readTry index) (writeTry t place) t.Readable := by
  unfold writeTry
  rw [List.append_assoc]
  refine ((requires_smallUint t.start).bind (fun hstart => yields_smallUint hstart) (Q := ∀ h ∈ t.handlers,
    h.address.toNat < extentBound) ?_).mono fun hall => ⟨hall.1, hne, hall.2⟩
  refine (yields_ushort t.count).bind_requires ((yields_ushort place).bind_requires_nil ?_)
  refine ((Value.requires_ofResult _).bind_nil _).mono fun ⟨handlers, hread⟩ => ?_
  exact (requires_readHandlers hundoes.type hne hentry (length_typed_lt hentry hlength)).at? hheld (within_eq_ok hread)

/-- Try blocks are read only if the numbers of each of them are small. -/
theorem requires_readTries {c : StoredCode} {tries : List TryBlock} {places : List UInt16}
    (h : List.Forall₂ (fun t place => ∀ index, Requires (c.readTry index) (writeTry t place) t.Readable ∧
      (t.Readable → Yields (c.readTry index) (writeTry t place) t.inOrder)) tries places) (index : Nat) :
    Requires (c.readTries index tries.length) (tries.zipWith writeTry places).flatten (∀ t ∈ tries, t.Readable) := by
  induction h generalizing index with
  | nil => exact fun _ _ _ _ _ _ _ hmem => nomatch hmem
  | cons ht _ ih =>
    refine (Requires.bind (ht index).1 (ht index).2 ((ih (index + 1)).bind_nil _)).mono List.forall_mem_cons.mpr

/-- The try blocks of a body that are read have small numbers. -/
theorem Shows.tries_readable {c : StoredCode} {code : Code} {debugOffset : Nat} (h : Shows c n code debugOffset)
    (hundoes : c.image.resolver.Undoes n) (hne : ∀ t ∈ code.tries, t.handlers ≠ [])
    (hsize : c.image.bytes.size < extentBound) {tries : List TryBlock} (hread : c.tries = .ok tries) :
    ∀ t ∈ code.tries, t.Readable := by
  obtain ⟨form, hform, hheld⟩ := h.tries
  by_cases hnil : code.tries = []
  · rw [hnil]
    exact fun t ht => nomatch ht
  · obtain ⟨places, hitems, hentries⟩ := exists_entries h.tryCount hform hheld hnil
    rw [StoredCode.tries, h.tryCount, if_neg (by simpa using hnil)] at hread
    refine (requires_readTries (forall₂_imp_of_mem hentries ?_) 0).at? hitems hread
    rintro t ht place - ⟨entry, hentry, -, hheld⟩ index
    have hle := hheld.le_size
    refine ⟨requires_readTry hundoes.values (hne t ht) hentry (by omega) hheld index, fun hreadable => ?_⟩
    have hhandlers := yields_readHandlers hundoes.values.type (hne t ht) hreadable.address_lt hentry
      (length_typed_lt hentry (by omega))
    exact yields_readTry hreadable.start_lt (hhandlers.at? hheld) index

end CodeItem

/-! ## Debug information -/

namespace DebugInfo

open Read Result StoredCode

variable {n : Numbering} {image : Image}

/-- Where the program `form` stands, the machine passes it without a failure only if `P`
holds. -/
def Needs (image : Image) (state : DebugState) (form : List UInt8) (P : Prop) : Prop :=
  ∀ (offset fuel : Nat), image.bytes.Holds offset form → form.length ≤ fuel →
    Clean (debugFrom image fuel state offset) → P

namespace Needs

variable {state next : DebugState} {form form' : List UInt8} {items : List DebugItem} {P Q : Prop}

theorem of_true (h : P) : Needs image state form P := fun _ _ _ _ _ => h

theorem mono (h : Needs image state form P) (himp : P → Q) : Needs image state form Q :=
  fun offset fuel hbytes hfuel hclean => himp (h offset fuel hbytes hfuel hclean)

/-- A program goes on behind its first part. -/
theorem left (h : Needs image state form P) : Needs image state (form ++ form') P :=
  fun offset fuel hbytes hfuel hclean => by
    rw [List.length_append] at hfuel
    exact h offset fuel hbytes.left (by omega) hclean

/-- What has been passed without a failure leads to what follows. -/
theorem append (h : Needs image state form P) (hrun : P → Runs image state form items next)
    (h' : Needs image next form' Q) : Needs image state (form ++ form') (P ∧ Q) :=
  fun offset fuel hbytes hfuel hclean => by
    have hfirst : P := h.left offset fuel hbytes hfuel hclean
    rw [List.length_append] at hfuel
    obtain ⟨rest, hrest, heq⟩ := hrun hfirst offset fuel hbytes.left (by omega)
    rw [heq] at hclean
    exact ⟨hfirst, h' _ rest hbytes.right (by omega) fun r hr => hclean r (List.mem_append_right _ hr)⟩

/-- An operation is passed only if it is read. -/
theorem of_requires (h : Requires (readDebug image state) form P) (hne : form ≠ []) : Needs image state form P :=
  fun offset fuel hbytes hfuel hclean => by
    have hpos := List.length_pos_iff.mpr hne
    obtain ⟨fuel, rfl⟩ := Nat.exists_eq_add_one_of_ne_zero (show fuel ≠ 0 by omega)
    rw [debugFrom] at hclean
    cases hstep : (readDebug image state).on image.bytes offset with
    | mk outcome last =>
      cases outcome with
      | ok step => exact h _ _ _ _ hbytes hstep
      | error e =>
        rw [hstep] at hclean
        obtain ⟨_, herror⟩ := hclean _ (List.mem_singleton_self _)
        cases herror

end Needs

variable {state : DebugState}

theorem needs_address (step : UInt32) :
    Needs image state (0x01 :: Write.uleb128 step) (step.toNat < extentBound) :=
  .of_requires ((yields_ubyte 0x01).bind_requires ((requires_smallUleb128 step).bind_nil _)) (List.cons_ne_nil _ _)

theorem needs_advance {next : DebugState} {address : UInt32} {form : List UInt8}
    (h : advance state address = .ok (form, next)) :
    Needs image state form ((address - state.address).toNat < extentBound) := by
  unfold advance at h
  split at h
  · cases h
  · split at h
    · rename_i heq
      rw [heq, UInt32.sub_self]
      exact .of_true (by decide)
    · cases h
      exact needs_address _

/-- A short way needs no operation of its own, and any other has to be small. -/
theorem needs_writeLine {a l address line : UInt32} {next : DebugState} {form : List UInt8}
    (h : writeLine ⟨a, l⟩ address line = .ok (form, next)) :
    Needs image ⟨a, l⟩ form ((address - a).toNat < extentBound) := by
  unfold writeLine at h
  split at h
  · cases h
  · cases h
    obtain ⟨lineStep, hlineStep⟩ : ∃ step, (if isSmallStep (line - l).toInt32.toInt then (line - l).toInt32.toInt
      else 0) = step := ⟨_, rfl⟩
    dsimp only
    rw [hlineStep]
    by_cases hshort : (address - a).toNat ≤ longestWay lineStep
    · refine .of_true (Nat.lt_of_le_of_lt hshort ?_)
      unfold longestWay extentBound
      split <;> omega
    · rw [if_neg hshort]
      have hline : Runs image _ _ _ _ := runs_lineMove a l line (isSmallStep (line - l).toInt32.toInt)
      exact ((Needs.of_true trivial).append (fun _ => hline) (needs_address (address - a))).left.mono And.right

/-- The register of an event has to be small. -/
theorem needs_event {event : DebugEvent} {form : List UInt8} (h : writeEvent n event = .ok form) :
    Needs image state form (∀ r ∈ event.register?, r.toNat < extentBound) := by
  have hone {register : UInt32} (hlt : register.toNat < extentBound) (r : UInt32) (hr : r ∈ some register) :
      r.toNat < extentBound := Option.some.inj hr ▸ hlt
  cases event with
  | startLocal register name type signature =>
    obtain ⟨nameForm, -, h⟩ := bind_eq_ok h
    obtain ⟨typeForm, -, h⟩ := bind_eq_ok h
    have hread {op : UInt8} {rest : List UInt8} (hop : op = 0x03 ∨ op = 0x04) :
        Needs image state (op :: (Write.uleb128 register ++ rest)) (register.toNat < extentBound) := by
      refine .of_requires ?_ (List.cons_ne_nil _ _)
      rcases hop with rfl | rfl
      · exact (yields_ubyte 0x03).bind_requires ((requires_smallUleb128 register).bind_left _ _)
      · exact (yields_ubyte 0x04).bind_requires ((requires_smallUleb128 register).bind_left _ _)
    cases signature with
    | none =>
      cases h
      simp only [Option.isSome_none, Bool.false_eq_true, if_false, List.cons_append, List.append_assoc]
      exact (hread (.inl rfl)).mono hone
    | some s =>
      obtain ⟨signatureForm, -, h⟩ := bind_eq_ok h
      cases h
      simp only [Option.isSome_some, if_true, List.cons_append, List.append_assoc]
      exact (hread (.inr rfl)).mono hone
  | endLocal register =>
    cases h
    refine Needs.mono (.of_requires ?_ (List.cons_ne_nil _ _)) hone
    exact (yields_ubyte 0x05).bind_requires ((requires_smallUleb128 register).bind_nil _)
  | restartLocal register =>
    cases h
    refine Needs.mono (.of_requires ?_ (List.cons_ne_nil _ _)) hone
    exact (yields_ubyte 0x06).bind_requires ((requires_smallUleb128 register).bind_nil _)
  | _ => exact .of_true fun r hr => nomatch hr

theorem needs_writeItem {next : DebugState} {item : DebugItem} {form : List UInt8}
    (h : writeItem n state item = .ok (form, next)) : Needs image state form
      ((item.address - state.address).toNat < extentBound ∧ ∀ r ∈ item.event.register?, r.toNat < extentBound) := by
  unfold writeItem at h
  split at h
  · rename_i line heq
    refine (needs_writeLine h).mono fun hway => ⟨hway, fun r hr => ?_⟩
    rw [heq] at hr
    cases hr
  · rename_i hline
    obtain ⟨⟨move, moved⟩, hmove, h⟩ := bind_eq_ok h
    obtain ⟨event, hevent, h⟩ := bind_eq_ok h
    cases h
    exact (needs_advance hmove).append (fun hway => (runs_advance hmove hway).2) (needs_event hevent)

/-- The program of some items is passed only if they can be read. -/
theorem needs_writeItems (hundoes : image.valueResolver.Undoes n.toValueNumbering) {items : List DebugItem}
    {form : List UInt8} (h : writeItems n state items = .ok form) :
    Needs image state form (DebugItem.Readable state.address items) := by
  induction items generalizing state form with
  | nil => exact .of_true ⟨.singleton _, fun _ hmem => nomatch hmem⟩
  | cons item items ih =>
    obtain ⟨⟨first, next⟩, hfirst, h⟩ := bind_eq_ok h
    obtain ⟨rest, hrest, h⟩ := bind_eq_ok h
    cases h
    refine ((needs_writeItem hfirst).append (fun hsmall => (runs_writeItem hundoes.agrees hfirst hsmall.1 hsmall.2).2)
      (ih hrest)).mono fun ⟨hsmall, hsteps, hregisters⟩ => ?_
    rw [(runs_writeItem hundoes.agrees hfirst hsmall.1 hsmall.2).1] at hsteps
    exact ⟨List.isChain_cons_cons.mpr ⟨hsmall.1, hsteps⟩, List.forall_mem_cons.mpr ⟨hsmall.2, hregisters⟩⟩

/-- Debug information that is read without a failure has small numbers. -/
theorem readable_of_debugItems {c : StoredCode} (hundoes : c.image.valueResolver.Undoes n.toValueNumbering)
    {names : List (Option String)} {items : List DebugItem} {form : List UInt8} (h : encode n names items = .ok form)
    (hbytes : c.image.bytes.Holds c.debugOffset form) (hsize : c.image.bytes.size < extentBound)
    (hne : c.debugOffset ≠ 0) (hclean : Clean c.debugItems) :
    DebugItem.Readable 0 items ∧ (firstLine items).toNat < extentBound := by
  have hline : (firstLine items).toNat < extentBound := by
    obtain ⟨forms, program, -, -, rfl⟩ := exists_of_encode h
    unfold debugItems at hclean
    dsimp only [Image.readAt] at hclean
    rw [if_neg hne] at hclean
    split at hclean
    · obtain ⟨_, herror⟩ := hclean _ (List.mem_singleton_self _)
      cases herror
    · rename_i hread
      exact ((requires_smallUleb128 (firstLine items)).bind_nil _).at? hbytes.left hread
  obtain ⟨program, start, hprogram, hheld, heq⟩ := exists_program h hbytes (length_names_lt h hbytes hsize) hne hline
  have hle := hheld.le_size
  rw [heq] at hclean
  exact ⟨needs_writeItems hundoes hprogram start _ hheld (by omega) hclean, hline⟩

end DebugInfo

end Dalvik
