import Mathlib.Data.List.Induction
import Dalvik.Layout.Items
import Dalvik.Proofs.Outcome
import Dalvik.Proofs.Reading

/-!
# The count of a list stays in step

A list with a count is asked for one thing after the other, and in between its count may be
set from outside. Whatever the list was at first, each request does to the items what the
operation on lists does (`CountedList.Effect`), a request that is refused changes nothing,
and once a request has settled the count, it is the number of items until it is set from
outside (`CountedList.synchronized_after`).
-/

namespace Dalvik.CountedList

variable {α : Type}

/-! ## Making items -/

theorem fillFrom_eq {m : Type → Type} [Monad m] [LawfulMonad m] (make : Nat → m α) (items : List α)
    (index count : Nat) :
    fillFrom make items index count = (items ++ ·) <$> (List.range' index count).mapM make := by
  induction count generalizing items index with
  | zero => simp [fillFrom]
  | succ count ih =>
    simp only [fillFrom, ih, List.range'_succ, List.mapM_cons, map_bind, bind_pure_comp, Functor.map_map,
      List.append_assoc, List.singleton_append]

/-- Items are made for the indices that are missing and for no others, in order. -/
theorem resizeM_eq {m : Type → Type} [Monad m] [LawfulMonad m] (l : CountedList α) (size : Nat) (make : Nat → m α) :
    l.resizeM size make = (fun made => ofItems (l.items.take size ++ made)) <$> (l.missing size).mapM make := by
  unfold resizeM missing
  split
  · rename_i hlt
    rw [Nat.sub_eq_zero_of_le (Nat.le_of_lt hlt)]
    simp [truncate]
  · rename_i hle
    rw [fillFrom_eq, List.take_of_length_le (Nat.le_of_not_lt hle)]
    simp only [map_eq_pure_bind, bind_assoc, pure_bind]

/-- What makes items, and notes for which indices. -/
def noting (make : Nat → α) (index : Nat) : StateM (List Nat) α :=
  fun noted => (make index, noted ++ [index])

theorem mapM_noting (make : Nat → α) (indices noted : List Nat) :
    (indices.mapM (noting make)).run noted = (indices.map make, noted ++ indices) := by
  induction indices generalizing noted with
  | nil =>
    rw [List.append_nil]
    rfl
  | cons index indices ih =>
    rw [List.mapM_cons, StateT.run_bind]
    show (indices.mapM (noting make) >>= fun made => pure (make index :: made)).run (noted ++ [index]) = _
    rw [StateT.run_bind, ih, List.append_assoc]
    rfl

theorem resizeM_noting (l : CountedList α) (size : Nat) (make : Nat → α) :
    (l.resizeM size (noting make)).run [] = (l.resize size make, l.missing size) := by
  rw [resizeM_eq, StateT.run_map, mapM_noting]
  rfl

/-! ## Reading items -/

/-- Items that are read one after the other, from an offset to the next. -/
inductive Decodes [Layout α] (bytes : Bytes) : (offset : Nat) → List α → (next : Nat) → Prop
  | nil {offset : Nat} : Decodes bytes offset [] offset
  | cons {offset middle next : Nat} {item : α} {items : List α}
    (first : (Layout.read : Read α).on bytes offset = (.ok item, middle)) (rest : Decodes bytes middle items next) :
    Decodes bytes offset (item :: items) next

variable [Layout α] {bytes : Bytes}

theorem listFrom_eq_ok_iff {context : Nat → Context} {index count offset next : Nat} {items : List α} :
    (Read.listFrom context (Layout.read : Read α) index count).on bytes offset = (.ok items, next) ↔
      Decodes bytes offset items next ∧ items.length = count := by
  induction count generalizing index offset items with
  | zero =>
    rw [Read.listFrom, Read.on_pure]
    constructor
    · intro h
      cases h
      exact ⟨.nil, rfl⟩
    · rintro ⟨h, hlength⟩
      cases h with
      | nil => rfl
      | cons => cases hlength
  | succ count ih =>
    rw [Read.listFrom, Read.on_bind, Read.on_within]
    constructor
    · intro h
      split at h
      · rename_i item middle hfirst
        rw [Read.on_bind] at h
        split at h
        · rename_i rest last hrest
          cases h
          obtain ⟨hdecodes, hlength⟩ := ih.mp hrest
          obtain ⟨hok, rfl⟩ := Prod.mk.inj hfirst
          exact ⟨.cons (Prod.ext (Result.within_eq_ok hok) rfl) hdecodes, congrArg Nat.succ hlength⟩
        · cases congrArg Prod.fst h
      · cases congrArg Prod.fst h
    · rintro ⟨h, hlength⟩
      cases h with
      | nil => cases hlength
      | cons first rest =>
        rw [first]
        show (Read.listFrom context Layout.read (index + 1) count >>= _).on bytes _ = _
        rw [Read.on_bind, ih.mpr ⟨rest, Nat.succ.inj hlength⟩]
        rfl

/-- A number of items can be read if the bytes that are left could hold them and they are
there. -/
theorem readItems_eq_ok_iff {count offset next : Nat} {items : List α} :
    (Layout.readItems α count).on bytes offset = (.ok items, next) ↔
      count ≤ bytes.size - offset ∧ Decodes bytes offset items next ∧ items.length = count := by
  rw [Layout.readItems, Read.on_bind, Read.on_remaining]
  dsimp only
  split
  · rename_i hlt
    exact iff_of_false (fun h => nomatch congrArg Prod.fst h) fun h => absurd h.1 (Nat.not_le_of_lt hlt)
  · rename_i hle
    rw [listFrom_eq_ok_iff]
    exact ⟨fun h => ⟨Nat.le_of_not_lt hle, h⟩, fun h => h.2⟩

/-! ## Requests -/

/-- What a list with a count can be asked for; the last request is not one to the list
but sets its count from outside. -/
inductive Request (α : Type) where
  | push (item : α)
  | insert (index : Nat) (item : α)
  | remove (index : Nat)
  | truncate (size : Nat)
  | clear
  | resize (size : Nat) (make : Nat → α)
  | modify (index : Nat) (change : α → α)
  | refresh
  | read (bytes : Bytes) (offset : Nat)
  | write
  | setCount (count : UInt32)

/-- What a list with a count answers. -/
inductive Answer (α : Type) where
  | done
  | outcome (outcome : Result Unit)
  /-- The item that was removed or changed, if there is one. -/
  | item (item? : Option α)
  /-- The indices for which items were made. -/
  | made (indices : List Nat)
  /-- The offset behind the items that were read. -/
  | next (next : Result Nat)
  | form (bytes : List UInt8)

/-- The answer to a request, and the list as it is then. -/
def ask (l : CountedList α) : Request α → Answer α × CountedList α
  | .push item => (.done, l.push item)
  | .insert index item =>
    match l.insert index item with
    | .ok l' => (.outcome (.ok ()), l')
    | .error e => (.outcome (.error e), l)
  | .remove index =>
    match l.remove? index with
    | some (item, l') => (.item (some item), l')
    | none => (.item none, l)
  | .truncate size => (.done, l.truncate size)
  | .clear => (.done, l.clear)
  | .resize size make =>
    let (l', indices) := (l.resizeM size (noting make)).run []
    (.made indices, l')
  | .modify index change => (.item (l.get? index), l.modify index change)
  | .refresh => (.done, l.refresh)
  | .read bytes offset => (.next (l.read bytes offset).1, (l.read bytes offset).2)
  | .write => (.form l.write.1, l.write.2)
  | .setCount count => (.done, l.setCount count)

/-- The list after some requests. -/
def after (l : CountedList α) (requests : List (Request α)) : CountedList α :=
  requests.foldl (fun l r => (l.ask r).2) l

/-! ## One request -/

/-- What a request to a list answers and makes of its items. -/
inductive Effect (l : CountedList α) : Request α → Answer α → List α → Prop
  | push {item : α} : Effect l (.push item) .done (l.items ++ [item])
  | insert {index : Nat} {item : α} (inside : index ≤ l.items.length) :
    Effect l (.insert index item) (.outcome (.ok ())) (l.items.insertIdx index item)
  | insertRefused {index : Nat} {item : α} (outside : l.items.length < index) :
    Effect l (.insert index item) (.outcome (.fail (.insertOutOfBounds index l.items.length))) l.items
  | remove {index : Nat} {item : α} (inside : l.items[index]? = some item) :
    Effect l (.remove index) (.item (some item)) (l.items.eraseIdx index)
  | removeRefused {index : Nat} (outside : l.items.length ≤ index) : Effect l (.remove index) (.item none) l.items
  | truncate {size : Nat} : Effect l (.truncate size) .done (l.items.take size)
  | clear : Effect l .clear .done []
  | resize {size : Nat} {make : Nat → α} : Effect l (.resize size make)
    (.made (List.range' l.items.length (size - l.items.length)))
    (l.items.take (min size l.items.length) ++ (List.range' l.items.length (size - l.items.length)).map make)
  | modify {index : Nat} {change : α → α} :
    Effect l (.modify index change) (.item l.items[index]?) (l.items.modify index change)
  | refresh : Effect l .refresh .done l.items
  | read {bytes : Bytes} {offset next : Nat} {items : List α} (decodes : Decodes bytes offset items next)
    (length : items.length = l.count.toNat) : Effect l (.read bytes offset) (.next (.ok next)) items
  | readFailed {bytes : Bytes} {offset : Nat} {e : Error}
    (fails : ¬∃ items next, l.count.toNat ≤ bytes.size - offset ∧ Decodes bytes offset (items : List α) next ∧
      items.length = l.count.toNat) : Effect l (.read bytes offset) (.next (.error e)) l.items
  | write : Effect l .write (.form (l.items.flatMap Layout.write)) l.items
  | setCount {count : UInt32} : Effect l (.setCount count) .done l.items

theorem effect_ask (l : CountedList α) (r : Request α) : Effect l r (l.ask r).1 (l.ask r).2.items := by
  cases r with
  | push item => exact .push
  | insert index item =>
    rw [ask, insert]
    split
    · rename_i l' heq
      split at heq
      · cases heq
      · rename_i hle
        cases heq
        exact .insert (Nat.le_of_not_lt hle)
    · rename_i e heq
      split at heq
      · rename_i hlt
        cases heq
        exact .insertRefused hlt
      · cases heq
  | remove index =>
    rw [ask, remove?]
    cases hitem : l.items[index]? with
    | some item => exact .remove hitem
    | none => exact .removeRefused (List.getElem?_eq_none_iff.mp hitem)
  | truncate size => exact .truncate
  | clear => exact .clear
  | resize size make =>
    have htake : l.items.take (min size l.items.length) = l.items.take size := by
      rw [← List.take_take, List.take_length]
    rw [ask, resizeM_noting]
    dsimp only [CountedList.resize, ofItems, missing]
    rw [← htake]
    exact .resize
  | modify index change => exact .modify
  | refresh => exact .refresh
  | read bytes offset =>
    rw [ask, read]
    cases hread : (Layout.readItems α l.count.toNat).on bytes offset with
    | mk outcome next =>
      cases outcome with
      | ok items =>
        obtain ⟨-, hdecodes, hlength⟩ := readItems_eq_ok_iff.mp hread
        exact .read hdecodes hlength
      | error e =>
        refine .readFailed fun ⟨items, next', hread'⟩ => ?_
        rw [readItems_eq_ok_iff.mpr hread'] at hread
        cases congrArg Prod.fst hread
  | write => exact .write
  | setCount count => exact .setCount

/-! ## The count -/

/-- The count is the number of items, as far as a word can hold it. -/
def Counted (l : CountedList α) : Prop :=
  l.count = UInt32.ofNat l.items.length

omit [Layout α] in
theorem Counted.toNat_eq {l : CountedList α} (h : l.Counted) (hlength : l.items.length < UInt32.size) :
    l.count.toNat = l.items.length := by
  rw [h]
  exact UInt32.toNat_ofNat_of_lt' hlength

/-- A request with its answer settles the count if it has changed the number of items or
may have done so, or if it is there to settle the count. -/
def Settles : Request α → Answer α → Prop
  | .insert _ _, answer => answer = .outcome (.ok ())
  | .remove _, answer => ∃ item, answer = .item (some item)
  | .modify _ _, _ => False
  | .setCount _, _ => False
  | _, _ => True

/-- A request is refused if it names an index that is not there. -/
def Refused : Request α → Answer α → Prop
  | .insert _ _, answer => ∃ e, answer = .outcome (.error e)
  | .remove _, answer => answer = .item none
  | _, _ => False

theorem counted_of_settles {l : CountedList α} {r : Request α} (h : Settles r (l.ask r).1) : (l.ask r).2.Counted := by
  cases r with
  | insert index item =>
    rw [ask, insert] at h ⊢
    split
    · rename_i l' heq
      split at heq
      · cases heq
      · cases heq
        rfl
    · rename_i e heq
      rw [heq] at h
      cases h
  | remove index =>
    rw [ask, remove?] at h ⊢
    cases hitem : l.items[index]? with
    | some item => rfl
    | none =>
      rw [hitem] at h
      obtain ⟨item, hitem⟩ := h
      cases hitem
  | resize size make =>
    rw [ask, resizeM_noting]
    rfl
  | read bytes offset =>
    rw [ask, read]
    cases (Layout.readItems α l.count.toNat).on bytes offset with
    | mk outcome next => cases outcome <;> rfl
  | modify index change => exact h.elim
  | setCount count => exact h.elim
  | push | truncate | clear | refresh | write => rfl

theorem ask_of_refused {l : CountedList α} {r : Request α} (h : Refused r (l.ask r).1) : (l.ask r).2 = l := by
  cases r with
  | insert index item =>
    rw [ask] at h ⊢
    split
    · rename_i l' heq
      rw [heq] at h
      obtain ⟨e, he⟩ := h
      cases he
    · rfl
  | remove index =>
    rw [ask] at h ⊢
    split
    · rename_i item l' heq
      rw [heq] at h
      cases h
    · rfl
  | _ => exact h.elim

/-- A request to the list leaves its count in step. -/
theorem Counted.ask {l : CountedList α} (h : l.Counted) {r : Request α} (hr : ∀ count, r ≠ .setCount count) :
    (l.ask r).2.Counted := by
  -- What neither settles the count nor changes the number of items is refused.
  have hkept (hsettles : ¬Settles r (l.ask r).1) (hrefused : Refused r (l.ask r).1) : (l.ask r).2.Counted := by
    rw [ask_of_refused hrefused]
    exact h
  by_cases hsettles : Settles r (l.ask r).1
  · exact counted_of_settles hsettles
  cases r with
  | insert index item =>
    refine hkept hsettles ?_
    rw [CountedList.ask] at hsettles ⊢
    split at hsettles
    · exact absurd rfl hsettles
    · exact ⟨_, rfl⟩
  | remove index =>
    refine hkept hsettles ?_
    rw [CountedList.ask] at hsettles ⊢
    split at hsettles
    · exact absurd ⟨_, rfl⟩ hsettles
    · rfl
  | modify index change =>
    show l.count = UInt32.ofNat (l.items.modify index change).length
    rw [List.length_modify]
    exact h
  | setCount count => exact absurd rfl (hr count)
  | _ => exact absurd trivial hsettles

theorem Counted.after {l : CountedList α} (h : l.Counted) {requests : List (Request α)}
    (hrequests : ∀ r ∈ requests, ∀ count, r ≠ .setCount count) : (l.after requests).Counted := by
  induction requests generalizing l with
  | nil => exact h
  | cons r requests ih =>
    exact ih (h.ask (hrequests r List.mem_cons_self)) fun q hq => hrequests q (List.mem_cons_of_mem _ hq)

/-! ## Any requests -/

/-- What holds of a list and of its count along some requests. -/
structure Synchronized (start : CountedList α) (requests : List (Request α)) : Prop where
  /-- Every request does to the items what the operation on lists does. -/
  effect : ∀ {before later : List (Request α)} {r : Request α}, requests = before ++ r :: later →
    Effect (start.after before) r ((start.after before).ask r).1 (start.after (before ++ [r])).items
  /-- A request that is refused changes neither the items nor the count. -/
  unchanged : ∀ {before later : List (Request α)} {r : Request α}, requests = before ++ r :: later →
    Refused r ((start.after before).ask r).1 → start.after (before ++ [r]) = start.after before
  /-- Once a request has settled the count, it is the number of items until it is set from outside. -/
  count : ∀ {before later : List (Request α)} {r : Request α}, requests = before ++ r :: later →
    Settles r ((start.after before).ask r).1 → (∀ q ∈ later, ∀ count, q ≠ .setCount count) →
      (start.after requests).items.length < UInt32.size →
        (start.after requests).count.toNat = (start.after requests).items.length

/-- Whatever a list and its count are at first and whatever is asked of them, the items
follow the operations and the count follows the items. -/
theorem synchronized_after (start : CountedList α) (requests : List (Request α)) : Synchronized start requests := by
  have hstep (before : List (Request α)) (r : Request α) :
      start.after (before ++ [r]) = ((start.after before).ask r).2 := by
    rw [after, List.foldl_append]
    rfl
  refine ⟨fun _ => ?_, fun _ hrefused => ?_, fun heq hsettles hlater hlength => ?_⟩
  · rw [hstep]
    exact effect_ask _ _
  · rw [hstep]
    exact ask_of_refused hrefused
  · refine Counted.toNat_eq ?_ hlength
    rw [heq, after, List.foldl_append]
    exact (counted_of_settles hsettles).after hlater

/-- A list that is to be read from too few bytes keeps its items, and the count that was
set from outside is lost. -/
example : ((ofItems [⟨7⟩] : CountedList TypeEntry).after [.setCount 2, .read #[1, 0] 0, .push ⟨8⟩]) =
    ⟨[⟨7⟩, ⟨8⟩], 2⟩ := by
  decide +kernel

end Dalvik.CountedList
