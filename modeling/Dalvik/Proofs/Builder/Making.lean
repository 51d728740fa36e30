import Dalvik.Proofs.Assembly.Ranks
import Dalvik.Proofs.Builder.Coding
import Dalvik.Proofs.Stateful

/-!
# Work that makes entries

Work on arenas that are open makes entries (`Makes`) if, as long as every key has a handle
of its own, the arenas afterwards code the pools with those entries. There is one rule for
a single key (`Table.makes`), one for work that follows other work (`Makes.bind`), and one
for work on each member of a list (`Makes.mapM`).
-/

namespace Dalvik

/-! ## Bounds -/

theorem Pool.size_le_insert {α : Type} [BEq α] [Hashable α] (p : Pool α) (key : α) : p.size ≤ (p.insert key).size := by
  unfold Pool.insert
  split
  · exact Nat.le_refl _
  · rw [size, size, Array.size_push]
    exact Nat.le_succ _

namespace Pools.Bounded

theorem of_insert {p : Pools} {e : Entry} (h : (p.insert e).Bounded) : p.Bounded := by
  cases e with
  | string s => exact { h with strings := Nat.le_trans (Pool.size_le_insert _ s) h.strings }
  | type d => exact { h with types := Nat.le_trans (Pool.size_le_insert _ d) h.types }
  | typeList ts => exact { h with typeLists := Nat.le_trans (Pool.size_le_insert _ ts) h.typeLists }
  | proto q => exact { h with protos := Nat.le_trans (Pool.size_le_insert _ q) h.protos }
  | field f => exact { h with fields := Nat.le_trans (Pool.size_le_insert _ f) h.fields }
  | method m => exact { h with methods := Nat.le_trans (Pool.size_le_insert _ m) h.methods }
  | handle k => exact { h with handles := Nat.le_trans (Pool.size_le_insert _ k) h.handles }
  | array vs => exact { h with arrays := Nat.le_trans (Pool.size_le_insert _ vs) h.arrays }
  | callSite c => exact { h with callSites := Nat.le_trans (Pool.size_le_insert _ c) h.callSites }
  | annotationItem a => exact { h with annotations := Nat.le_trans (Pool.size_le_insert _ a) h.annotations }
  | annotationSet as => exact { h with annotationSets := Nat.le_trans (Pool.size_le_insert _ as) h.annotationSets }

theorem of_insertAll {p : Pools} {entries : List Entry} (h : (p.insertAll entries).Bounded) : p.Bounded := by
  induction entries generalizing p with
  | nil => exact h
  | cons e entries ih => exact (ih h).of_insert

end Pools.Bounded

namespace Builder

/-! ## Open arenas -/

/-- No arena is sealed. -/
structure Arenas.Open (a : Arenas) : Prop where
  strings : a.strings.isSealed = false
  types : a.types.isSealed = false
  typeLists : a.typeLists.isSealed = false
  protos : a.protos.isSealed = false
  fields : a.fields.isSealed = false
  methods : a.methods.isSealed = false
  handles : a.handles.isSealed = false
  arrays : a.arrays.isSealed = false
  callSites : a.callSites.isSealed = false
  annotations : a.annotations.isSealed = false
  annotationSets : a.annotationSets.isSealed = false

theorem Arenas.open_empty : Arenas.Open {} where
  strings := rfl
  types := rfl
  typeLists := rfl
  protos := rfl
  fields := rfl
  methods := rfl
  handles := rfl
  arrays := rfl
  callSites := rfl
  annotations := rfl
  annotationSets := rfl

/-- No arena has more keys than there are handles. -/
structure Arenas.Bounded (a : Arenas) : Prop where
  strings : a.strings.size ≤ UInt32.size
  types : a.types.size ≤ UInt32.size
  typeLists : a.typeLists.size ≤ UInt32.size
  protos : a.protos.size ≤ UInt32.size
  fields : a.fields.size ≤ UInt32.size
  methods : a.methods.size ≤ UInt32.size
  handles : a.handles.size ≤ UInt32.size
  arrays : a.arrays.size ≤ UInt32.size
  callSites : a.callSites.size ≤ UInt32.size
  annotations : a.annotations.size ≤ UInt32.size
  annotationSets : a.annotationSets.size ≤ UInt32.size

/-! ## Tables -/

/-- One of the arenas, with the pool whose keys its keys stand for. -/
structure Table {κ α : Type} [BEq κ] [Hashable κ] [BEq α] [Hashable α] (arena : Arenas → Arena κ)
    (put : Arenas → Arena κ → Arenas) (pool : Pools → Pool α) (entry : α → Entry) (Codes : Pools → κ → α → Prop) :
    Prop where
  isOpen : ∀ {a}, a.Open → (arena a).isSealed = false
  put_open : ∀ {a b}, a.Open → b.isSealed = false → (put a b).Open
  put_bounded : ∀ {a b}, (put a b).Bounded → b.size ≤ UInt32.size ∧ ((arena a).size ≤ b.size → a.Bounded)
  bounded : ∀ {p : Pools}, p.Bounded → (pool p).size ≤ UInt32.size
  wellFormed : ∀ {p : Pools}, p.WellFormed → (pool p).WellFormed
  biUnique : ∀ {p : Pools}, p.WellFormed → Relator.BiUnique (Codes p)
  mono : ∀ {p q : Pools} {k x}, p.Extends q → Codes p k x → Codes q k x
  insert : ∀ {p : Pools} {x}, pool (p.insert (entry x)) = (pool p).insert x
  codes : ∀ {q p : Pools} {a}, Arenas.Codes q a p → (arena a).Codes (Codes q) (pool p)
  put_codes : ∀ {q p : Pools} {a b x}, Arenas.Codes q a p → b.Codes (Codes q) ((pool p).insert x) →
    Arenas.Codes q (put a b) (p.insert (entry x))

/-- Keys that stand for themselves are one to one with what they stand for. -/
theorem biUnique_eq {α : Type} : Relator.BiUnique (@Eq α) :=
  ⟨fun _ _ _ h h' => h.trans h'.symm, fun _ _ _ h h' => h.symm.trans h'⟩

namespace Table

theorem strings : Table Arenas.strings (fun a strings => { a with strings }) Pools.strings .string fun _ => Eq where
  isOpen h := h.strings
  put_open h hb := { h with strings := hb }
  put_bounded h := ⟨h.strings, fun hle => { h with strings := Nat.le_trans hle h.strings }⟩
  bounded h := h.strings
  wellFormed h := h.strings
  biUnique _ := biUnique_eq
  mono _ hx := hx
  insert := rfl
  codes h := h.strings
  put_codes h hb := { h with strings := hb }

theorem types : Table Arenas.types (fun a types => { a with types }) Pools.types .type TypeKey.Codes where
  isOpen h := h.types
  put_open h hb := { h with types := hb }
  put_bounded h := ⟨h.types, fun hle => { h with types := Nat.le_trans hle h.types }⟩
  bounded h := h.types
  wellFormed h := h.types
  biUnique := biUnique_typeKey
  mono h hk := hk.mono h
  insert := rfl
  codes h := h.types
  put_codes h hb := { h with types := hb }

theorem typeLists : Table Arenas.typeLists (fun a typeLists => { a with typeLists }) Pools.typeLists .typeList
    TypeListKey.Codes where
  isOpen h := h.typeLists
  put_open h hb := { h with typeLists := hb }
  put_bounded h := ⟨h.typeLists, fun hle => { h with typeLists := Nat.le_trans hle h.typeLists }⟩
  bounded h := h.typeLists
  wellFormed h := h.typeLists
  biUnique := biUnique_typeListKey
  mono h hk := hk.mono h
  insert := rfl
  codes h := h.typeLists
  put_codes h hb := { h with typeLists := hb }

theorem protos : Table Arenas.protos (fun a protos => { a with protos }) Pools.protos .proto ProtoKey.Codes where
  isOpen h := h.protos
  put_open h hb := { h with protos := hb }
  put_bounded h := ⟨h.protos, fun hle => { h with protos := Nat.le_trans hle h.protos }⟩
  bounded h := h.protos
  wellFormed h := h.protos
  biUnique := biUnique_protoKey
  mono h hk := hk.mono h
  insert := rfl
  codes h := h.protos
  put_codes h hb := { h with protos := hb }

theorem fields : Table Arenas.fields (fun a fields => { a with fields }) Pools.fields .field FieldKey.Codes where
  isOpen h := h.fields
  put_open h hb := { h with fields := hb }
  put_bounded h := ⟨h.fields, fun hle => { h with fields := Nat.le_trans hle h.fields }⟩
  bounded h := h.fields
  wellFormed h := h.fields
  biUnique := biUnique_fieldKey
  mono h hk := hk.mono h
  insert := rfl
  codes h := h.fields
  put_codes h hb := { h with fields := hb }

theorem methods : Table Arenas.methods (fun a methods => { a with methods }) Pools.methods .method MethodKey.Codes where
  isOpen h := h.methods
  put_open h hb := { h with methods := hb }
  put_bounded h := ⟨h.methods, fun hle => { h with methods := Nat.le_trans hle h.methods }⟩
  bounded h := h.methods
  wellFormed h := h.methods
  biUnique := biUnique_methodKey
  mono h hk := hk.mono h
  insert := rfl
  codes h := h.methods
  put_codes h hb := { h with methods := hb }

theorem handles : Table Arenas.handles (fun a handles => { a with handles }) Pools.handles .handle
    MethodHandleKey.Codes where
  isOpen h := h.handles
  put_open h hb := { h with handles := hb }
  put_bounded h := ⟨h.handles, fun hle => { h with handles := Nat.le_trans hle h.handles }⟩
  bounded h := h.handles
  wellFormed h := h.handles
  biUnique := biUnique_methodHandleKey
  mono h hk := hk.mono h
  insert := rfl
  codes h := h.handles
  put_codes h hb := { h with handles := hb }

theorem arrays : Table Arenas.arrays (fun a arrays => { a with arrays }) Pools.arrays .array fun _ => Eq where
  isOpen h := h.arrays
  put_open h hb := { h with arrays := hb }
  put_bounded h := ⟨h.arrays, fun hle => { h with arrays := Nat.le_trans hle h.arrays }⟩
  bounded h := h.arrays
  wellFormed h := h.arrays
  biUnique _ := biUnique_eq
  mono _ hx := hx
  insert := rfl
  codes h := h.arrays
  put_codes h hb := { h with arrays := hb }

theorem callSites : Table Arenas.callSites (fun a callSites => { a with callSites }) Pools.callSites .callSite
    CallSiteKey.Codes where
  isOpen h := h.callSites
  put_open h hb := { h with callSites := hb }
  put_bounded h := ⟨h.callSites, fun hle => { h with callSites := Nat.le_trans hle h.callSites }⟩
  bounded h := h.callSites
  wellFormed h := h.callSites
  biUnique := biUnique_callSiteKey
  mono h hk := hk.mono h
  insert := rfl
  codes h := h.callSites
  put_codes h hb := { h with callSites := hb }

theorem annotations : Table Arenas.annotations (fun a annotations => { a with annotations }) Pools.annotations
    .annotationItem fun _ => Eq where
  isOpen h := h.annotations
  put_open h hb := { h with annotations := hb }
  put_bounded h := ⟨h.annotations, fun hle => { h with annotations := Nat.le_trans hle h.annotations }⟩
  bounded h := h.annotations
  wellFormed h := h.annotations
  biUnique _ := biUnique_eq
  mono _ hx := hx
  insert := rfl
  codes h := h.annotations
  put_codes h hb := { h with annotations := hb }

theorem annotationSets : Table Arenas.annotationSets (fun a annotationSets => { a with annotationSets })
    Pools.annotationSets .annotationSet AnnotationSetKey.Codes where
  isOpen h := h.annotationSets
  put_open h hb := { h with annotationSets := hb }
  put_bounded h := ⟨h.annotationSets, fun hle => { h with annotationSets := Nat.le_trans hle h.annotationSets }⟩
  bounded h := h.annotationSets
  wellFormed h := h.annotationSets
  biUnique := biUnique_annotationSetKey
  mono h hk := hk.mono h
  insert := rfl
  codes h := h.annotationSets
  put_codes h hb := { h with annotationSets := hb }

end Table

/-! ## Work that makes entries -/

section internIn

variable (a : Arenas) {κ : Type} [BEq κ] [Hashable κ] {arena : Arenas → Arena κ} {put : Arenas → Arena κ → Arenas} {key : κ}

theorem on_internIn {h : Handle κ} {b : Arena κ} (hb : (arena a).intern key = .ok (h, b)) :
    (internIn arena put key).on a = (.ok h, put a b) := by
  unfold internIn
  rw [ExceptT.on, ExceptT.run_mk, StateT.run, hb]

theorem on_internIn_error {e : Error} (he : (arena a).intern key = .error e) :
    (internIn arena put key).on a = (.error e, a) := by
  unfold internIn
  rw [ExceptT.on, ExceptT.run_mk, StateT.run, he]

end internIn

/-- A fact about pools that holds of pools with more entries too. -/
def Lasting (F : Pools → Prop) : Prop :=
  ∀ ⦃p q : Pools⦄, p.Extends q → F p → F q

theorem Lasting.and {F G : Pools → Prop} (hF : Lasting F) (hG : Lasting G) : Lasting fun p => F p ∧ G p :=
  fun _ _ h hp => ⟨hF h hp.1, hG h hp.2⟩

/-- On open arenas the work succeeds, whatever they hold. As long as every key has a handle
of its own and `Before` holds of the pools, it makes `entries`, and what it yields is as
`After` says. -/
def Makes {β : Type} (Before : Pools → Prop) (work : Interning β) (entries : List Entry) (After : Pools → β → Prop) :
    Prop :=
  ∀ a : Arenas, a.Open → ∃ v b, work.on a = (.ok v, b) ∧ b.Open ∧ (b.Bounded → a.Bounded) ∧
    ∀ p : Pools, p.Growing → Arenas.Codes p a p → Before p → b.Bounded ∨ (p.insertAll entries).Bounded →
      Arenas.Codes (p.insertAll entries) b (p.insertAll entries) ∧ After (p.insertAll entries) v

/-- Nothing needs to hold before. -/
def Always (_ : Pools) : Prop :=
  True

namespace Makes

variable {β γ : Type} {Before F : Pools → Prop} {After : Pools → β → Prop} {Last : Pools → γ → Prop}
  {work : Interning β} {entries later : List Entry}

theorem pure {v : β} (h : ∀ p, Before p → After p v) : Makes Before (Pure.pure v) [] After := fun a ha =>
  ⟨v, a, rfl, ha, id, fun p _ hcodes hbefore _ => ⟨hcodes, h p hbefore⟩⟩

theorem bind (h : Makes Before work entries After) {next : β → Interning γ}
    (hnext : ∀ v, Makes (After · v) (next v) later Last) : Makes Before (work >>= next) (entries ++ later) Last := by
  intro a ha
  obtain ⟨v, b, hb, hopen, hsize, hmakes⟩ := h a ha
  obtain ⟨w, c, hc, hopen', hsize', hmakes'⟩ := hnext v b hopen
  refine ⟨w, c, by rw [ExceptT.on_bind, hb]; exact hc, hopen', hsize ∘ hsize', fun p hp hcodes hbefore hbounded => ?_⟩
  have hall : p.insertAll (entries ++ later) = (p.insertAll entries).insertAll later := List.foldl_append
  rw [hall] at hbounded ⊢
  obtain ⟨hcodes, hafter⟩ := hmakes p hp hcodes hbefore (hbounded.imp hsize' Pools.Bounded.of_insertAll)
  exact hmakes' _ (hp.insertAll entries) hcodes hafter hbounded

theorem imp (h : Makes Before work entries After) {Before' : Pools → Prop} {After' : Pools → β → Prop}
    (hbefore : ∀ p, Before' p → Before p) (hafter : ∀ p v, After p v → After' p v) :
    Makes Before' work entries After' := by
  intro a ha
  obtain ⟨v, b, hb, hopen, hsize, hmakes⟩ := h a ha
  refine ⟨v, b, hb, hopen, hsize, fun p hp hcodes hp' hbounded => ?_⟩
  obtain ⟨hcodes, hv⟩ := hmakes p hp hcodes (hbefore p hp') hbounded
  exact ⟨hcodes, hafter _ v hv⟩

theorem anyway (h : Makes Always work entries After) : Makes Before work entries After :=
  h.imp (fun _ _ => trivial) fun _ _ => id

/-- What lasts still holds afterwards. -/
theorem keeping (h : Makes Always work entries After) (hF : Lasting F) :
    Makes F work entries fun p v => After p v ∧ F p := by
  intro a ha
  obtain ⟨v, b, hb, hopen, hsize, hmakes⟩ := h a ha
  refine ⟨v, b, hb, hopen, hsize, fun p hp hcodes hp' hbounded => ?_⟩
  obtain ⟨hcodes, hv⟩ := hmakes p hp hcodes trivial hbounded
  exact ⟨hcodes, hv, hF (.insertAll hp entries) hp'⟩

theorem map (h : Makes Before work entries After) {f : β → γ} (hf : ∀ p v, After p v → Last p (f v)) :
    Makes Before (f <$> work) entries Last := by
  rw [map_eq_pure_bind, ← List.append_nil entries]
  exact h.bind fun v => .pure fun p hv => hf p v hv

theorem discard (h : Makes Before work entries After) : Makes Before (discard work) entries fun _ _ => True :=
  h.map fun _ _ _ => trivial

/-- Work on each member of a list makes what it makes for each. -/
theorem mapM {α : Type} {f : α → Interning β} {entriesOf : α → List Entry} {R : Pools → β → α → Prop}
    (hR : ∀ v x, Lasting (R · v x)) (l : List α) (h : ∀ x ∈ l, Makes Always (f x) (entriesOf x) (R · · x)) :
    Makes Always (l.mapM f) (l.flatMap entriesOf) fun p vs => List.Forall₂ (R p) vs l := by
  induction l with
  | nil => exact .pure fun _ _ => .nil
  | cons x l ih =>
    rw [List.mapM_cons, List.flatMap_cons]
    refine (h x List.mem_cons_self).bind fun v => ?_
    rw [← List.append_nil (l.flatMap entriesOf)]
    refine ((ih fun y hy => h y (List.mem_cons_of_mem x hy)).keeping (hR v x)).bind fun vs => ?_
    exact .pure fun p hvs => .cons hvs.2 hvs.1

theorem forM {α : Type} {f : α → Interning PUnit} {entriesOf : α → List Entry} (l : List α)
    (h : ∀ x ∈ l, Makes Always (f x) (entriesOf x) fun _ _ => True) :
    Makes Always (l.forM f) (l.flatMap entriesOf) fun _ _ => True := by
  induction l with
  | nil => exact .pure fun _ _ => trivial
  | cons x l ih =>
    rw [List.flatMap_cons]
    exact (h x List.mem_cons_self).bind fun _ =>
      (ih fun y hy => h y (List.mem_cons_of_mem x hy)).anyway

end Makes

/-- Interning a key makes the entry that the key stands for. -/
theorem Table.makes {κ α : Type} [BEq κ] [Hashable κ] [LawfulBEq κ] [BEq α] [Hashable α] [LawfulBEq α]
    {arena : Arenas → Arena κ} {put : Arenas → Arena κ → Arenas} {pool : Pools → Pool α} {entry : α → Entry}
    {Codes : Pools → κ → α → Prop} (t : Table arena put pool entry Codes) (key : κ) (x : α) :
    Makes (Codes · key x) (internIn arena put key) [entry x] fun p h => h.Names (pool p) x := by
  intro a ha
  obtain ⟨h, b, hb, hopen, hsize⟩ := Arena.exists_intern (t.isOpen ha) key
  refine ⟨h, put a b, on_internIn a hb, t.put_open ha hopen, fun hbounded => (t.put_bounded hbounded).2 hsize,
    fun p hp hcodes hkey hbounded => ?_⟩
  have hext : p.Extends (p.insert (entry x)) := .insert hp (entry x)
  have hcodes := hcodes.mono hext
  have hpool := t.wellFormed hp.wellFormed
  have hunique := t.biUnique (hp.insert (entry x)).wellFormed
  have hkey := t.mono hext hkey
  have hle : b.size ≤ UInt32.size := by
    refine hbounded.elim (fun hbounded => (t.put_bounded hbounded).1) fun hbounded => ?_
    rw [(t.codes hcodes).size_intern hpool hunique (t.isOpen ha) hkey hb, ← t.insert]
    exact t.bounded hbounded
  obtain ⟨hb', hnames⟩ := (t.codes hcodes).intern hpool hunique (t.isOpen ha) hkey hb hle
  refine ⟨t.put_codes hcodes hb', ?_⟩
  show h.Names (pool (p.insert (entry x))) x
  rwa [t.insert]

end Builder

end Dalvik
