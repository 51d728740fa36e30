import Dalvik.Proofs.Assembly.Shrinking

/-!
# Writing a file again

Writing puts a file in order: members, annotations, handlers and classes. What is read of
the written file is in order already, so that it is written without failing, no larger than
before, and from then on nothing changes (`DexFile.Orderly.assemble_stable`).
-/

namespace Dalvik

open Assembly

/-- The opcodes that a file is read with have the version of that file. -/
theorem Opcodes.version_ofVersion {o o' : Opcodes} (h : ofVersion o.version = .ok o') : o'.version = o.version := by
  have hversion {version : Nat} (h : ofVersion version = .ok o') : o'.version = version := by
    unfold ofVersion at h
    split at h <;> cases h <;> rfl
  exact hversion h

/-- What is read of a file that is written from an orderly blueprint. -/
theorem Blueprint.Opens.toDexFile_eq_content {b : Blueprint} {t : DataTables} {image : Image} (h : b.Opens t image)
    (hb : b.Orderly) (hcovers : image.opcodes.Covers b.opcodes) {d : DexFile} (hread : image.toDexFile = .ok d) :
    (∀ c ∈ b.classes, c.Readable) ∧ d = b.content image.opcodes := by
  have hsmall := h.small_of_toDexFile hb.toSettled hcovers hb.sound hread
  have hreadable : ∀ c ∈ b.classes, c.Readable := fun c hc =>
    (hb.sound c hc).readable (hsmall c hc) (hb.innerArranged c hc).references
  exact ⟨hreadable, Except.ok.inj (hread.symm.trans (h.toDexFile_eq hb.toSettled hcovers hreadable))⟩

namespace DexFile

/-- A file in order whose classes come in the order of a file is read as it was. -/
theorem Canonical.toDexFile_eq {d : DexFile} (h : d.Canonical) (hreadable : d.Readable)
    (harranged : ClassOrder.arrange d.classes = d.classes) {t : Blueprint.DataTables} {image : Image}
    (hopens : (gather d.opcodes d.requests).finalized.blueprint.Opens t image)
    (hcovers : image.opcodes.Covers d.opcodes) :
    image.toDexFile = .ok { d with opcodes := image.opcodes } := by
  have hclasses : (gather d.opcodes d.requests).finalized.blueprint.classes = d.classes :=
    h.classes_blueprint.trans harranged
  rw [← d.opcodes_blueprint] at hcovers
  have hkept : d.classes.map ClassDef.kept = d.classes :=
    map_eq_self fun c hc => (h.classes c hc).kept_eq
  rw [hopens.toDexFile_eq h.settled hcovers fun c hc => hreadable c (hclasses ▸ hc), hclasses, hkept]
  exact congrArg (fun markers => Except.ok (DexFile.mk image.opcodes d.classes markers)) h.markers_eq

/-- What is read of a written file can be written, and no larger than that file. Reading it
back gives the same file again, and writing that the same bytes. -/
theorem Orderly.assemble_stable {d d₁ : DexFile} (h : d.Orderly) (hlevel : Opcodes.firstAlike ≤ d.opcodes.api)
    {bytes : Bytes} (hwrite : d.view.assemble = .ok bytes) (hsize : bytes.size < extentBound) {image : Image}
    (himage : Image.ofBytes bytes = .ok image) (hread : image.toDexFile = .ok d₁) :
    ∃ bytes₂ image₂, d₁.view.assemble = .ok bytes₂ ∧ bytes₂.size ≤ bytes.size ∧
      Image.ofBytes bytes₂ = .ok image₂ ∧ image₂.toDexFile = .ok d₁ ∧
      (image₂.toDexFile >>= fun d₂ => d₂.view.assemble) = .ok bytes₂ := by
  rw [assemble_view h.types] at hwrite
  have hb := h.orderly_blueprint
  obtain ⟨t, image', himage', -, hopens⟩ := Blueprint.opens_write hb.ranked hwrite hsize
  obtain rfl : image' = image := Except.ok.inj (himage'.symm.trans himage)
  have hversion : Opcodes.ofVersion d.opcodes.version = .ok image'.opcodes := d.opcodes_blueprint ▸ hopens.opcodes
  have hcovers : image'.opcodes.Covers (gather d.opcodes d.requests).finalized.blueprint.opcodes := by
    rw [d.opcodes_blueprint]
    exact Opcodes.covers_ofVersion hlevel hversion
  obtain ⟨hreadable, rfl⟩ := hopens.toDexFile_eq_content hb hcovers hread
  -- The second file has fewer strings at most, so that it is written and no larger.
  have hcanonical := hb.canonical_content image'.opcodes hreadable
  obtain ⟨bytes₂, hwrite₂, hle⟩ := (hb.thins_content hopens hcovers hreadable).exists_write hb hcanonical.settled hwrite hsize
  obtain ⟨t₂, image₂, himage₂, -, hopens₂⟩ :=
    Blueprint.opens_write hcanonical.settled.ranked hwrite₂ (Nat.lt_of_le_of_lt hle hsize)
  -- It is read with the same opcodes, whose version it has.
  have hopcodes : image₂.opcodes = image'.opcodes := by
    refine Except.ok.inj (hopens₂.opcodes.symm.trans (Eq.trans ?_ hversion))
    rw [DexFile.opcodes_blueprint]
    exact congrArg Opcodes.ofVersion (Opcodes.version_ofVersion hversion)
  have hcovers₂ : image₂.opcodes.Covers image'.opcodes := by
    rw [hopcodes]
    exact Opcodes.Covers.rfl
  have hread₂ := hcanonical.toDexFile_eq (Blueprint.Orderly.readable_content _ hreadable) (hb.arrange_content _) hopens₂
    hcovers₂
  rw [hopcodes] at hread₂
  have hassemble := (assemble_view hcanonical.types).trans hwrite₂
  exact ⟨bytes₂, image₂, hassemble, hle, himage₂, hread₂, by rw [hread₂]; exact hassemble⟩

/-! ## A file that is put in order -/

/-- A file that has its marker twice. -/
def repeated : DexFile :=
  { small with markers := small.markers ++ small.markers }

theorem orderly_repeated : repeated.Orderly where
  types := canonical_small.types
  distinct := canonical_small.distinct
  sound c hc m hm code hcode :=
    have hcode := (readable_small c hc).code m hm code hcode
    ⟨fun i hi => (hcode.instructions i hi).sound, fun t ht => (hcode.tries t ht).handlers_ne_nil⟩
  innerArranged c hc := by
    have hreadable := readable_small c hc
    cases List.mem_singleton.mp hc
    exact {
      annotations := nofun
      fieldAnnotations := fun f hf => by cases List.mem_singleton.mp hf; exact nofun
      methodAnnotations := fun m hm => by cases List.mem_singleton.mp hm; exact nofun
      parameterAnnotations := fun m hm => by cases List.mem_singleton.mp hm; exact nofun
      values := nofun
      references := fun m hm code hcode i hi slot hslot =>
        (((hreadable.code m hm code hcode).instructions i hi).references slot hslot).2 }

theorem exists_toDexFile_repeated : ∃ bytes image d, repeated.view.assemble = .ok bytes ∧ bytes.size < extentBound ∧
    Image.ofBytes bytes = .ok image ∧ image.toDexFile = .ok d := by
  have htypes : (repeated.classes.map (·.type)).Nodup := canonical_small.types
  have hadded : ∀ c ∈ repeated.classes, c.arranged.ordered = c := fun c hc => canonical_small.added_eq hc
  have hb := orderly_repeated.orderly_blueprint
  have hclasses : (gather repeated.opcodes repeated.requests).finalized.blueprint.classes = [smallClass] := by
    have hgathered : (gather repeated.opcodes repeated.requests).classes.toList = [smallClass] := by
      rw [classes_gather repeated.opcodes (repeated.addedTypes_requests ▸ htypes), filterMap_class?]
      exact map_eq_self hadded
    show ClassOrder.arrange (gather repeated.opcodes repeated.requests).classes.toList = _
    rw [hgathered]
    exact List.perm_singleton.mp (ClassOrder.arrange_perm _)
  have hhas (e : Entry) : (gather repeated.opcodes repeated.requests).finalized.pools.Has e ↔ e ∈ small.entries := by
    rw [has_iff_of_added htypes hadded]
    simp only [entries, repeated, List.map_append, List.mem_append, or_self]
  obtain ⟨bytes, hwrite, hsize⟩ := exists_write_small hb.toSettled hclasses hhas repeated.opcodes_blueprint
  obtain ⟨t, image, himage, -, hopens⟩ := Blueprint.opens_write hb.ranked hwrite hsize
  have hcovers : image.opcodes.Covers (gather repeated.opcodes repeated.requests).finalized.blueprint.opcodes :=
    Opcodes.covers_ofVersion (by rw [repeated.opcodes_blueprint]; decide) hopens.opcodes
  have hsmall : ∀ c ∈ (gather repeated.opcodes repeated.requests).finalized.blueprint.classes, c.Small := by
    rw [hclasses]
    exact fun c hc => (readable_small c hc).small
  obtain ⟨d, hread⟩ := hopens.exists_toDexFile hb.toTyped hcovers hb.sound hsmall
  exact ⟨bytes, image, d, (assemble_view htypes).trans hwrite, hsize, himage, hread⟩

/-- Of the two markers one is read, and the file is written again with that one. -/
theorem assemble_stable_repeated : repeated.Orderly ∧ Opcodes.firstAlike ≤ repeated.opcodes.api ∧
    ∃ bytes image d, repeated.view.assemble = .ok bytes ∧ bytes.size < extentBound ∧ Image.ofBytes bytes = .ok image ∧
      image.toDexFile = .ok d ∧
      ∃ bytes₂ image₂, d.view.assemble = .ok bytes₂ ∧ bytes₂.size ≤ bytes.size ∧ Image.ofBytes bytes₂ = .ok image₂ ∧
        image₂.toDexFile = .ok d ∧ (image₂.toDexFile >>= fun d₂ => d₂.view.assemble) = .ok bytes₂ := by
  have hlevel : Opcodes.firstAlike ≤ repeated.opcodes.api := by decide
  obtain ⟨bytes, image, d, hwrite, hsize, himage, hread⟩ := exists_toDexFile_repeated
  exact ⟨orderly_repeated, hlevel, bytes, image, d, hwrite, hsize, himage, hread,
    orderly_repeated.assemble_stable hlevel hwrite hsize himage hread⟩

end DexFile

end Dalvik
