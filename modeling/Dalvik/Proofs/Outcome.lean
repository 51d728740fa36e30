import Mathlib.Data.List.Forall2
import Dalvik.Items

/-!
# Outcomes up to the causes of failures

Two outcomes agree when both are failures or both are the same value. Whatever
is put together from outcomes that agree agrees too (`Agree.bind`,
`Agree.mapM`).
-/

namespace Dalvik

variable {α β : Type}

/-! ## Lists whose members go together -/

theorem exists_mem_left {R : α → β → Prop} {l : List α} {l' : List β} (h : List.Forall₂ R l l') {b : β}
    (hb : b ∈ l') : ∃ a ∈ l, R a b := by
  induction h with
  | nil => cases hb
  | @cons a b' l l' hab _ ih =>
    rcases List.mem_cons.mp hb with rfl | hb
    · exact ⟨a, List.mem_cons_self, hab⟩
    · obtain ⟨a, hmem, hab⟩ := ih hb
      exact ⟨a, List.mem_cons_of_mem _ hmem, hab⟩

theorem exists_mem_right {R : α → β → Prop} {l : List α} {l' : List β} (h : List.Forall₂ R l l') {a : α}
    (ha : a ∈ l) : ∃ b ∈ l', R a b :=
  exists_mem_left h.flip ha

theorem forall₂_imp_of_mem {R S : α → β → Prop} {l : List α} {l' : List β} (h : List.Forall₂ R l l')
    (himp : ∀ a ∈ l, ∀ b ∈ l', R a b → S a b) : List.Forall₂ S l l' := by
  rw [List.forall₂_iff_zip] at h ⊢
  refine ⟨h.1, fun hab => ?_⟩
  obtain ⟨ha, hb⟩ := List.of_mem_zip hab
  exact himp _ ha _ hb (h.2 hab)

/-- Members that go together are mapped to the same list if they are mapped to the same. -/
theorem map_eq_map_of_forall₂ {γ : Type} {R : α → β → Prop} {l : List α} {l' : List β} (h : List.Forall₂ R l l')
    {f : α → γ} {g : β → γ} (hfg : ∀ a b, R a b → f a = g b) : l.map f = l'.map g := by
  induction h with
  | nil => rfl
  | cons hab _ ih => rw [List.map_cons, List.map_cons, hfg _ _ hab, ih]

/-- What the order of some members says of those that go with them. -/
theorem pairwise_of_forall₂ {R : α → β → Prop} {S : α → α → Prop} {T : β → β → Prop} {l : List α} {l' : List β}
    (h : List.Forall₂ R l l') (hl' : l'.Pairwise T) (hTS : ∀ {a a' b b'}, R a b → R a' b' → T b b' → S a a') :
    l.Pairwise S := by
  induction h with
  | nil => exact .nil
  | @cons a b l l' hab hall ih =>
    rw [List.pairwise_cons] at hl'
    refine .cons (fun a' ha' => ?_) (ih hl'.2)
    obtain ⟨b', hb', hab'⟩ := exists_mem_right hall ha'
    exact hTS hab hab' (hl'.1 b' hb')

/-- A list whose members stay stays. -/
theorem map_eq_self {f : α → α} {l : List α} (h : ∀ a ∈ l, f a = a) : l.map f = l :=
  (List.map_congr_left h).trans (List.map_id l)

/-- Members that go with the same members go together. -/
theorem forall₂_trans {γ : Type} {R : α → β → Prop} {S : β → γ → Prop} {l : List α} {l' : List β} {l'' : List γ}
    (h : List.Forall₂ R l l') (h' : List.Forall₂ S l' l'') : List.Forall₂ (fun a c => ∃ b, R a b ∧ S b c) l l'' := by
  induction h generalizing l'' with
  | nil =>
    cases h'
    exact .nil
  | cons hab _ ih =>
    obtain ⟨c, l'', hbc, hl, rfl⟩ := List.forall₂_cons_left_iff.mp h'
    exact .cons ⟨_, hab, hbc⟩ (ih hl)

namespace Result

variable {ε : Type}

@[simp] theorem ok_bind (a : α) (f : α → Except ε β) : (Except.ok a : Except ε α) >>= f = f a := Eq.refl _

theorem bind_of_eq_ok {r : Except ε α} {a : α} (h : r = .ok a) {f : α → Except ε β} {s : Except ε β} (hs : f a = s) :
    r >>= f = s := by
  rw [h, ok_bind, hs]

@[simp] theorem error_bind (e : Error) (f : α → Result β) : (Except.error e : Result α) >>= f = .error e := Eq.refl _

@[simp] theorem pure_eq_ok (a : α) : (pure a : Result α) = .ok a := Eq.refl _

theorem map_id (r : Result α) : r.map id = r := by
  cases r <;> rfl

theorem map_map_id (r : Result (List α)) : r.map (List.map id) = r := by
  rw [List.map_id_fun, map_id]

theorem bind_map {γ : Type} (r : Result α) (f : α → Result β) (g : β → γ) :
    (r >>= f).map g = r >>= fun a => (f a).map g := by
  cases r <;> rfl

theorem map_bind {γ : Type} (r : Result α) (f : α → β) (g : β → Result γ) : r.map f >>= g = r >>= fun a => g (f a) := by
  cases r <;> rfl

/-! ## Failures -/

/-- The outcome is a failure. -/
def Fails (r : Result α) : Prop :=
  ∃ e, r = .error e

theorem Fails.bind {r : Result α} (h : r.Fails) (f : α → Result β) : (r >>= f).Fails := by
  obtain ⟨e, rfl⟩ := h
  exact ⟨e, Eq.refl _⟩

theorem Fails.map {r : Result α} (h : r.Fails) (f : α → β) : Fails (r.map f) := by
  obtain ⟨e, rfl⟩ := h
  exact ⟨e, Eq.refl _⟩

/-- What always fails in the end fails. -/
theorem fails_bind {r : Result α} {f : α → Result β} (h : ∀ a, (f a).Fails) : (r >>= f).Fails := by
  cases r with
  | error e => exact ⟨e, Eq.refl _⟩
  | ok a => exact h a

/-- Whatever is done for each member of a list succeeds for the whole list. -/
theorem mapM_ok {l : List α} {f : α → Except ε β} {g : α → β} (h : ∀ a ∈ l, f a = .ok (g a)) :
    l.mapM f = .ok (l.map g) := by
  induction l with
  | nil => rfl
  | cons a l ih =>
    rw [List.mapM_cons, h a List.mem_cons_self, ok_bind, ih fun a ha => h a (List.mem_cons_of_mem _ ha)]
    rfl

theorem exists_mapM {l : List α} {f : α → Except ε β} (h : ∀ a ∈ l, ∃ b, f a = .ok b) : ∃ bs, l.mapM f = .ok bs := by
  induction l with
  | nil => exact ⟨[], rfl⟩
  | cons a l ih =>
    obtain ⟨b, hb⟩ := h a List.mem_cons_self
    obtain ⟨bs, hbs⟩ := ih fun a ha => h a (List.mem_cons_of_mem _ ha)
    exact ⟨b :: bs, by rw [List.mapM_cons, hb, ok_bind, hbs]; rfl⟩

theorem mapM_fails {l : List α} {f : α → Result β} {a : α} (ha : a ∈ l) (h : (f a).Fails) :
    Fails (l.mapM f) := by
  induction l with
  | nil => cases ha
  | cons b l ih =>
    rw [List.mapM_cons]
    rcases List.mem_cons.mp ha with rfl | ha
    · exact h.bind _
    · exact fails_bind fun c => (ih ha).bind _

/-! ## What yields a value -/

theorem bind_eq_ok {r : Except ε α} {f : α → Except ε β} {b : β} (h : r >>= f = .ok b) :
    ∃ a, r = .ok a ∧ f a = .ok b := by
  cases r with
  | error e => cases h
  | ok a => exact ⟨a, Eq.refl _, h⟩

theorem map_eq_ok {r : Result α} {f : α → β} {b : β} (h : r.map f = .ok b) : ∃ a, r = .ok a ∧ f a = b := by
  cases r with
  | error e => cases h
  | ok a => exact ⟨a, Eq.refl _, Except.ok.inj h⟩

theorem within_eq_ok {r : Result α} {context : Context} {a : α} (h : r.within context = .ok a) : r = .ok a := by
  cases r with
  | error e => cases h
  | ok b => exact h

/-- A list of results has the result of each member. -/
theorem forall₂_of_mapM {f : α → Except ε β} {l : List α} {l' : List β} (h : l.mapM f = .ok l') :
    List.Forall₂ (fun a b => f a = .ok b) l l' := by
  induction l generalizing l' with
  | nil =>
    cases h
    exact .nil
  | cons a l ih =>
    rw [List.mapM_cons] at h
    obtain ⟨b, hb, h⟩ := bind_eq_ok h
    obtain ⟨bs, hbs, h⟩ := bind_eq_ok h
    cases h
    exact .cons hb (ih hbs)

/-- What is done for each member of a list, with the results that it has. -/
theorem mapM_of_forall₂ {f : α → Except ε β} {l : List α} {l' : List β}
    (h : List.Forall₂ (fun a b => f a = .ok b) l l') : l.mapM f = .ok l' := by
  induction h with
  | nil => rfl
  | cons ha _ ih =>
    rw [List.mapM_cons, ha, ok_bind, ih]
    rfl

theorem exists_of_mem_mapM {f : α → Except ε β} {l : List α} {l' : List β} (h : l.mapM f = .ok l') {b : β}
    (hb : b ∈ l') : ∃ a ∈ l, f a = .ok b :=
  exists_mem_left (forall₂_of_mapM h) hb

theorem collectFrom_eq {items : Items α} {l : List α} {index : Nat}
    (h : ∀ i a, l[i]? = some a → items.get (index + i) = .ok a) : items.collectFrom index l.length = .ok l := by
  induction l generalizing index with
  | nil => rfl
  | cons a l ih =>
    have hrest : items.collectFrom (index + 1) l.length = .ok l := ih fun i b hb => by
      rw [Nat.add_assoc, Nat.add_comm 1]
      exact h (i + 1) b hb
    have hfirst : items.get index = .ok a := h 0 a rfl
    rw [List.length_cons, Items.collectFrom, hfirst, ok_bind, hrest]
    rfl

/-- A collection has the result of each item. -/
theorem collect_eq {items : Items α} {l : List α} (hcount : items.count = l.length)
    (h : ∀ i a, l[i]? = some a → items.get i = .ok a) : items.collect = .ok l := by
  rw [Items.collect, hcount]
  exact collectFrom_eq fun i a ha => (Nat.zero_add i).symm ▸ h i a ha

theorem collect_map {f : α → Result β} {l : List α} {l' : List β} (h : List.Forall₂ (fun a b => f a = .ok b) l l') :
    Result.collect (l.map f) = .ok l' :=
  mapM_of_forall₂ (List.forall₂_map_left_iff.mpr h)

theorem collect_map_ok (l : List α) : Result.collect (l.map .ok) = .ok l :=
  collect_map (List.forall₂_same.mpr fun _ _ => Eq.refl _)

/-- What is done for each member of a list and collected. -/
theorem collect_map_eq {f : α → Result β} {g : α → β} {l : List α} (h : ∀ a ∈ l, f a = .ok (g a)) :
    Result.collect (l.map f) = .ok (l.map g) :=
  collect_map (List.forall₂_map_right_iff.mpr (List.forall₂_same.mpr h))

/-- What is read for each item of a list and collected. -/
theorem collect_ofList_map {γ : Type} {shown : α → γ} {f : γ → Result β} {g : α → β} {l : List α}
    (h : ∀ a ∈ l, f (shown a) = .ok (g a)) : ((Items.ofList (l.map shown)).andThen f).collect = .ok (l.map g) := by
  refine collect_eq ((List.length_map _).trans (List.length_map _).symm) fun i b hb => ?_
  obtain ⟨a, ha, rfl⟩ := Option.map_eq_some_iff.mp ((List.getElem?_map ..).symm.trans hb)
  simp only [Items.andThen, Items.ofList, List.getElem?_map, ha, Option.map_some]
  exact h a (List.mem_of_getElem? ha)

theorem map_andThen {γ : Type} (items : Items α) (f : α → β) (g : β → Result γ) :
    (items.map f).andThen g = items.andThen fun a => g (f a) :=
  congrArg (Items.mk items.count) (funext fun i => map_bind (items.get i) f g)

/-- What is collected of changed outcomes is what is collected, changed. -/
theorem collect_map_map (g : α → β) (l : List (Result α)) :
    Result.collect (l.map (Except.map g)) = (Result.collect l).map (List.map g) := by
  induction l with
  | nil => rfl
  | cons r l ih =>
    have hcons {γ : Type} (r : Result γ) (l : List (Result γ)) :
        Result.collect (r :: l) = r >>= fun a => (Result.collect l).map (a :: ·) := by
      rw [Result.collect, List.mapM_cons]
      cases r with
      | error e => rfl
      | ok a => cases h : l.mapM id <;> simp only [id, ok_bind, h, Result.collect] <;> rfl
    rw [List.map_cons, hcons, hcons, ih, map_bind, bind_map]
    congr 1
    funext a
    cases Result.collect l <;> rfl

theorem collectFrom_map (g : α → β) (items : Items α) (index count : Nat) :
    (items.map g).collectFrom index count = (items.collectFrom index count).map (List.map g) := by
  induction count generalizing index with
  | zero => rfl
  | succ count ih =>
    rw [Items.collectFrom, Items.collectFrom, ih, bind_map]
    show (items.get index).map g >>= _ = _
    rw [map_bind]
    congr 1
    funext a
    cases items.collectFrom (index + 1) count <;> rfl

theorem collect_map_items (g : α → β) (items : Items α) : (items.map g).collect = items.collect.map (List.map g) :=
  collectFrom_map g items 0 items.count

theorem mem_of_get_ofList {l : List α} {i : Nat} {a : α} (h : (Items.ofList l).get i = .ok a) : a ∈ l := by
  cases hi : l[i]? with
  | none =>
    simp only [Items.ofList, hi] at h
    cases h
  | some b =>
    simp only [Items.ofList, hi] at h
    cases h
    exact List.mem_of_getElem? hi

/-- None of some outcomes is a failure. -/
def Clean (outcomes : List (Result α)) : Prop :=
  ∀ r ∈ outcomes, ∃ a, r = .ok a

/-- What can be collected is without a failure. -/
theorem clean_of_collect {outcomes : List (Result α)} {l : List α} (h : Result.collect outcomes = .ok l) :
    Clean outcomes := fun r hr => by
  obtain ⟨a, -, ha⟩ := exists_mem_right (forall₂_of_mapM h) hr
  exact ⟨a, ha⟩

theorem Clean.exists_collect {outcomes : List (Result α)} (h : Clean outcomes) :
    ∃ l, Result.collect outcomes = .ok l :=
  exists_mapM h

/-- What is collected are the items from an index on. -/
theorem get_of_collectFrom {items : Items α} {index count : Nat} {l : List α}
    (h : items.collectFrom index count = .ok l) :
    l.length = count ∧ ∀ i a, l[i]? = some a → items.get (index + i) = .ok a := by
  induction count generalizing index l with
  | zero =>
    cases h
    exact ⟨rfl, fun _ _ ha => nomatch ha⟩
  | succ count ih =>
    obtain ⟨first, hfirst, h⟩ := bind_eq_ok h
    obtain ⟨rest, hrest, h⟩ := bind_eq_ok h
    cases h
    obtain ⟨hlength, hget⟩ := ih hrest
    refine ⟨congrArg (· + 1) hlength, fun i a ha => ?_⟩
    cases i with
    | zero => exact Option.some.inj ha ▸ hfirst
    | succ i => rw [← hget i a ha, Nat.add_assoc, Nat.add_comm 1]

theorem get_of_collect {items : Items α} {l : List α} (h : items.collect = .ok l) :
    l.length = items.count ∧ ∀ i a, l[i]? = some a → items.get i = .ok a := by
  obtain ⟨hlength, hget⟩ := get_of_collectFrom h
  exact ⟨hlength, fun i a ha => by rw [← hget i a ha, Nat.zero_add]⟩

/-- Items that have been collected have been read. -/
theorem exists_of_collectFrom {items : Items α} {index count : Nat} {l : List α}
    (h : items.collectFrom index count = .ok l) {i : Nat} (hi : i < count) : ∃ a, items.get (index + i) = .ok a := by
  obtain ⟨rfl, hget⟩ := get_of_collectFrom h
  exact ⟨_, hget i _ (List.getElem?_eq_getElem hi)⟩

theorem exists_of_collect {items : Items α} {l : List α} (h : items.collect = .ok l) {i : Nat} (hi : i < items.count) :
    ∃ a, items.get i = .ok a := by
  obtain ⟨a, ha⟩ := exists_of_collectFrom h hi
  exact ⟨a, by rw [← ha, Nat.zero_add]⟩

theorem collectFrom_imp {items items' : Items α} (h : ∀ i a, items.get i = .ok a → items'.get i = .ok a)
    {index count : Nat} {l : List α} (hcollect : items.collectFrom index count = .ok l) :
    items'.collectFrom index count = .ok l := by
  induction count generalizing index l with
  | zero => exact hcollect
  | succ count ih =>
    obtain ⟨a, ha, hcollect⟩ := bind_eq_ok hcollect
    obtain ⟨rest, hrest, hcollect⟩ := bind_eq_ok hcollect
    rw [Items.collectFrom, h index a ha, ok_bind, ih hrest]
    exact hcollect

/-- What is collected comes from the items. -/
theorem exists_get_of_mem_collectFrom {items : Items α} {index count : Nat} {l : List α}
    (h : items.collectFrom index count = .ok l) {a : α} (ha : a ∈ l) : ∃ i, items.get i = .ok a := by
  obtain ⟨i, hi⟩ := List.getElem?_of_mem ha
  exact ⟨_, (get_of_collectFrom h).2 i a hi⟩

/-- Items none of which fails are collected. -/
theorem exists_collectFrom {items : Items α} {index count : Nat}
    (h : ∀ i, i < count → ∃ a, items.get (index + i) = .ok a) : ∃ l, items.collectFrom index count = .ok l := by
  induction count generalizing index with
  | zero => exact ⟨[], rfl⟩
  | succ count ih =>
    obtain ⟨a, ha⟩ := h 0 (Nat.zero_lt_succ _)
    have hothers : ∀ i, i < count → ∃ a, items.get (index + 1 + i) = .ok a := fun i hi => by
      obtain ⟨b, hb⟩ := h (i + 1) (by omega)
      exact ⟨b, by rw [← hb, Nat.add_assoc, Nat.add_comm 1]⟩
    obtain ⟨rest, hrest⟩ := ih hothers
    exact ⟨a :: rest, by rw [Items.collectFrom, show items.get index = .ok a from ha, ok_bind, hrest]; rfl⟩

theorem exists_collect {items : Items α} (h : ∀ i, i < items.count → ∃ a, items.get i = .ok a) :
    ∃ l, items.collect = .ok l :=
  exists_collectFrom fun i hi => (Nat.zero_add i).symm ▸ h i hi

/-! ## Agreement -/

/-- Both outcomes are failures, or both are the same value. -/
def Agree (r s : Result α) : Prop :=
  r.toOption = s.toOption

namespace Agree

theorem rfl {r : Result α} : Agree r r := Eq.refl _

theorem errors (e f : Error) : Agree (.error e : Result α) (.error f) := Eq.refl _

theorem of_fails {r s : Result α} (hr : r.Fails) (hs : s.Fails) : Agree r s := by
  obtain ⟨e, rfl⟩ := hr
  obtain ⟨f, rfl⟩ := hs
  exact errors e f

theorem fails {r s : Result α} (h : Agree r s) (hr : r.Fails) : s.Fails := by
  obtain ⟨e, rfl⟩ := hr
  cases s with
  | error f => exact ⟨f, Eq.refl _⟩
  | ok a => cases h

theorem ok {r s : Result α} (h : Agree r s) {a : α} (hr : r = .ok a) : s = .ok a := by
  subst hr
  cases s with
  | error f => cases h
  | ok b => exact congrArg Except.ok (Option.some.inj h).symm

theorem bind {r s : Result α} (h : Agree r s) {f g : α → Result β} (hfg : ∀ a, Agree (f a) (g a)) :
    Agree (r >>= f) (s >>= g) := by
  cases r with
  | error e =>
    cases s with
    | error e' => exact errors e e'
    | ok b => cases h
  | ok a =>
    cases s with
    | error e' => cases h
    | ok b =>
      cases h
      exact hfg a

theorem map {r s : Result α} (h : Agree r s) (f : α → β) : Agree (r.map f) (s.map f) := by
  cases r <;> cases s <;> cases h <;> exact Eq.refl _

theorem within {r s : Result α} (h : Agree r s) (context : Context) : Agree (r.within context) (s.within context) := by
  cases r <;> cases s <;> cases h <;> exact Eq.refl _

/-- Outcomes that agree for each member of a list agree for the whole list. -/
theorem mapM {l : List α} {f g : α → Result β} (h : ∀ a ∈ l, Agree (f a) (g a)) : Agree (l.mapM f) (l.mapM g) := by
  induction l with
  | nil => exact rfl
  | cons a l ih =>
    rw [List.mapM_cons, List.mapM_cons]
    exact (h a List.mem_cons_self).bind fun b =>
      (ih fun a ha => h a (List.mem_cons_of_mem _ ha)).bind fun bs => rfl

end Agree

end Result

end Dalvik
