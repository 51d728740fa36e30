import Dalvik.Proofs.Assembly.Failures

/-!
# The classes that calls have added

A call adds the classes that it succeeds in adding, also if it fails later on
(`Assembly.Adds`). No call takes a class away or touches one that is there
(`Assembly.mem_classes_call`). So after any calls an assembly has the classes that these
have added, with their members in order, and no others (`Assembly.mem_classes_history`).
-/

namespace Dalvik

namespace Assembly

variable {a : Assembly} {c' : ClassDef}

/-! ## What a call adds -/

/-- From an index on, the class some places behind it is added, with all in front of it. -/
def AddsAt (a : Assembly) (classes : Items ClassView) (index place : Nat) (c : ClassDef) : Prop :=
  ∃ view, classes.get (index + place) = .ok view ∧ view.toClass = .ok c ∧
    ((addClassesFrom classes index (place + 1)).on a).1 = .ok ()

/-- A call adds a class, as it was given: it asks for this class, or adds a file that has it. -/
inductive Adds (a : Assembly) : Call → ClassDef → Prop where
  | ask {view : ClassView} {c : ClassDef} (hview : view.toClass = .ok c) (hadded : ((addClass view).on a).1 = .ok ()) :
    Adds a (.ask (.classDef view)) c
  | add {file : FileView} {place : Nat} {c : ClassDef} (hplace : place < file.classes.count)
    (hadded : a.AddsAt file.classes 0 place c) : Adds a (.add file) c

/-- One of some calls has added a class to a new assembly. -/
def Added (opcodes : Opcodes) (calls : List Call) (c : ClassDef) : Prop :=
  ∃ before call after, calls = before ++ call :: after ∧ (history opcodes before).Adds call c

/-! ## Single classes -/

/-- A class joins the others, or they stay as they are. -/
theorem on_addClass_cases (a : Assembly) (view : ClassView) :
    (∃ c b, view.toClass = .ok c ∧ (addClass view).on a = (.ok (), b) ∧ b.classes = a.classes.push c.ordered) ∨
      ∃ e b, (addClass view).on a = (.error e, b) ∧ b.classes = a.classes := by
  cases hfinalized : a.isFinalized with
  | true =>
    simp only [addClass, on_bind, on_get, hfinalized, if_true, on_fail]
    exact .inr ⟨_, a, rfl, rfl⟩
  | false =>
    simp only [addClass, on_bind, on_get, hfinalized, Bool.false_eq_true, if_false, on_ofResult]
    cases view.toClass with
    | error e => exact .inr ⟨e, a, rfl, rfl⟩
    | ok c =>
      rcases on_addClassDef_cases a c with ⟨b, hadded, hb⟩ | ⟨e, hfails⟩ | ⟨-, e, pools, hfails⟩
      · exact .inl ⟨c, b, rfl, hadded, hb⟩
      · exact .inr ⟨e, a, hfails, rfl⟩
      · exact .inr ⟨e, _, hfails, rfl⟩

theorem on_addClassAt_cases (a : Assembly) (classes : Items ClassView) (index : Nat) :
    (∃ view c b, classes.get index = .ok view ∧ view.toClass = .ok c ∧
      (addClassAt classes index).on a = (.ok (), b) ∧ b.classes = a.classes.push c.ordered) ∨
      ∃ e b, (addClassAt classes index).on a = (.error e, b) ∧ b.classes = a.classes := by
  rw [addClassAt, on_bind, on_ofResult]
  cases hget : classes.get index with
  | error e => exact .inr ⟨e, a, rfl, rfl⟩
  | ok view =>
    rcases on_addClass_cases a view with ⟨c, b, hview, hadded, hb⟩ | hfails
    · exact .inl ⟨view, c, b, rfl, hview, hadded, hb⟩
    · exact .inr hfails

/-- Those classes are there that were there, and those that are added. -/
theorem mem_classes_addClassesFrom (classes : Items ClassView) (index count : Nat) :
    c' ∈ ((addClassesFrom classes index count).on a).2.classes ↔
      c' ∈ a.classes ∨ ∃ place, place < count ∧ ∃ c, a.AddsAt classes index place c ∧ c' = c.ordered := by
  induction count generalizing index a with
  | zero => simp [addClassesFrom]
  | succ count ih =>
    have hon (count : Nat) : (addClassesFrom classes index (count + 1)).on a = _ :=
      (congrArg (Work.on · a) (addClassesFrom_succ classes index count)).trans (on_bind a (addClassAt classes index) _)
    rcases on_addClassAt_cases a classes index with ⟨view, c, b, hget, hview, hadded, hb⟩ | ⟨e, b, hfails, hb⟩
    · simp only [hadded] at hon
      have hfirst (d : ClassDef) : a.AddsAt classes index 0 d ↔ d = c := by
        rw [AddsAt, hon, Nat.add_zero, hget]
        constructor
        · rintro ⟨view', hsame, hview', -⟩
          cases hsame
          exact Except.ok.inj (hview'.symm.trans hview)
        · rintro rfl
          exact ⟨view, rfl, hview, rfl⟩
      have hnext (place : Nat) (d : ClassDef) :
          a.AddsAt classes index (place + 1) d ↔ b.AddsAt classes (index + 1) place d := by
        rw [AddsAt, AddsAt, hon, show index + (place + 1) = index + 1 + place by omega]
      rw [hon, ih, hb, Array.mem_push, Nat.exists_lt_succ_left, or_assoc]
      simp only [hfirst, hnext, exists_eq_left]
    · simp only [hfails] at hon
      rw [hon, hb]
      simp [AddsAt, hon]

/-! ## Calls -/

/-- Making entries leaves the classes as they are. -/
theorem classes_intern (a : Assembly) (entries : List Entry) :
    ((discard (intern entries) : Work Unit).on a).2.classes = a.classes := by
  obtain ⟨outcome, pools, hintern⟩ := on_intern_eq a entries
  rw [hintern]

theorem classes_addMarker (a : Assembly) (m : Marker) : ((addMarker m).on a).2.classes = a.classes := by
  obtain ⟨outcome, pools, hintern⟩ := on_intern_eq a [.string m.text]
  rw [addMarker, on_bind, hintern]
  cases outcome <;> rfl

theorem classes_addMarkers (a : Assembly) (markers : List Marker) :
    ((markers.forM addMarker).on a).2.classes = a.classes := by
  induction markers generalizing a with
  | nil => rfl
  | cons m markers ih =>
    have hfirst := classes_addMarker a m
    rw [show (m :: markers).forM addMarker = addMarker m >>= fun _ => markers.forM addMarker from rfl, on_bind]
    split
    · rename_i hon
      rw [ih, ← hfirst, hon]
    · rename_i hon
      rw [← hfirst, hon]

/-- A file brings its classes up to the first that fails to be added. -/
theorem classes_addFile (a : Assembly) (file : FileView) : ((addFile file).on a).2.classes =
    ((addClassesFrom file.classes 0 file.classes.count).on a).2.classes := by
  rw [addFile, on_bind]
  split
  · rename_i b hon
    rw [on_bind, on_ofResult]
    cases file.markers with
    | error e => rw [hon]
    | ok markers =>
      dsimp only
      rw [classes_addMarkers, hon]
  · rename_i hon
    rw [hon]

/-- After a call those classes are there that were there, and those that it adds. -/
theorem mem_classes_call (a : Assembly) (call : Call) :
    c' ∈ (call.work.on a).2.classes ↔ c' ∈ a.classes ∨ ∃ c, a.Adds call c ∧ c' = c.ordered := by
  have hsame (hclasses : (call.work.on a).2.classes = a.classes) (hnone : ∀ c, ¬ a.Adds call c) :
      c' ∈ (call.work.on a).2.classes ↔ c' ∈ a.classes ∨ ∃ c, a.Adds call c ∧ c' = c.ordered := by
    simp [hclasses, hnone]
  cases call with
  | ask r =>
    cases r with
    | classDef view =>
      rw [Call.work, Request.work]
      rcases on_addClass_cases a view with ⟨c, b, hview, hadded, hb⟩ | ⟨e, b, hfails, hb⟩
      · have hadds (d : ClassDef) : a.Adds (.ask (.classDef view)) d ↔ d = c := by
          constructor
          · rintro ⟨hview', -⟩
            exact Except.ok.inj (hview'.symm.trans hview)
          · rintro rfl
            exact .ask hview (congrArg Prod.fst hadded)
        rw [hadded, hb, Array.mem_push]
        simp only [hadds, exists_eq_left]
      · refine hsame ((congrArg (·.2.classes) hfails).trans hb) fun c hadds => ?_
        obtain ⟨-, hadded⟩ := hadds
        rw [hfails] at hadded
        cases hadded
    | marker m => exact hsame (classes_addMarker a m) fun c hadds => by cases hadds
    | _ => exact hsame (classes_intern a _) fun c hadds => by cases hadds
  | add file =>
    rw [Call.work, classes_addFile, mem_classes_addClassesFrom]
    refine or_congr_right ⟨?_, ?_⟩
    · rintro ⟨place, hplace, c, hadded, hc⟩
      exact ⟨c, .add hplace hadded, hc⟩
    · rintro ⟨c, hadds, hc⟩
      cases hadds with
      | add hplace hadded => exact ⟨_, hplace, c, hadded, hc⟩
  | finalize =>
    refine hsame ?_ fun c hadds => by cases hadds
    cases hfinalized : a.isFinalized with
    | true => simp only [Call.work, finalize, on_bind, on_get, hfinalized, if_true, on_fail, Result.fail]
    | false =>
      simp only [Call.work, finalize, on_bind, on_get, hfinalized, Bool.false_eq_true, if_false, on_ofResult]
      cases a.pools.finalize <;> rfl
  | write =>
    refine hsame ?_ fun c hadds => by cases hadds
    rw [Call.work, on_discard]
    cases hfinalized : a.isFinalized with
    | true =>
      simp only [write, on_bind, on_get, hfinalized, Bool.not_true, Bool.false_eq_true, if_false, on_set, on_ofResult,
        recordStrings]
    | false => simp only [write, on_bind, on_get, hfinalized, Bool.not_false, if_true, on_fail, Result.fail]

/-! ## Histories -/

theorem added_concat {opcodes : Opcodes} {calls : List Call} {call : Call} {c : ClassDef} :
    Added opcodes (calls ++ [call]) c ↔ Added opcodes calls c ∨ (history opcodes calls).Adds call c := by
  constructor
  · rintro ⟨before, call', after, hcalls, hadds⟩
    rcases List.eq_nil_or_concat after with rfl | ⟨after, last, rfl⟩
    · obtain ⟨rfl, hsame⟩ := List.append_inj' hcalls rfl
      cases hsame
      exact .inr hadds
    · rw [List.concat_eq_append, ← List.cons_append, ← List.append_assoc] at hcalls
      exact .inl ⟨before, call', after, (List.append_inj' hcalls rfl).1, hadds⟩
  · rintro (⟨before, call', after, rfl, hadds⟩ | hadds)
    · exact ⟨before, call', after ++ [call], by rw [List.append_assoc, List.cons_append], hadds⟩
    · exact ⟨calls, call, [], rfl, hadds⟩

/-- After any calls the classes are those that these have added, with their members in
order. -/
theorem mem_classes_history (opcodes : Opcodes) (calls : List Call) :
    c' ∈ (history opcodes calls).classes ↔ ∃ c, Added opcodes calls c ∧ c' = c.ordered := by
  induction calls using List.reverseRecOn with
  | nil => simp [history, Added]
  | append_singleton calls call ih =>
    rw [history, List.foldl_append]
    refine (mem_classes_call (history opcodes calls) call).trans ?_
    rw [ih]
    simp only [added_concat, or_and_right, exists_or]

end Assembly

end Dalvik
