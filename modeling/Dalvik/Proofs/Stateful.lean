import Dalvik.Error

/-!
# Work that may fail

Work on a state yields an outcome and leaves a state behind, whether it fails or not. These
are the equations of the steps that such work is made of.
-/

namespace ExceptT

variable {ε σ α β : Type}

/-- The outcome of some work on a state, and the state afterwards. -/
def on (work : ExceptT ε (StateM σ) α) (s : σ) : Except ε α × σ :=
  work.run.run s

variable (s : σ)

theorem on_bind (work : ExceptT ε (StateM σ) α) (next : α → ExceptT ε (StateM σ) β) : (work >>= next).on s =
    match work.on s with
    | (.ok v, t) => (next v).on t
    | (.error e, t) => (.error e, t) := by
  show ExceptT.bindCont next (work s).1 (work s).2 = _
  unfold ExceptT.on
  show _ = match work s with
    | (.ok v, t) => next v t
    | (.error e, t) => (.error e, t)
  rcases work s with ⟨e | v, t⟩ <;> rfl

@[simp] theorem on_pure (v : α) : (pure v : ExceptT ε (StateM σ) α).on s = (.ok v, s) := rfl

@[simp] theorem on_get : (get : ExceptT ε (StateM σ) σ).on s = (.ok s, s) := rfl

@[simp] theorem on_set (t : σ) : (set t : ExceptT ε (StateM σ) PUnit).on s = (.ok ⟨⟩, t) := rfl

@[simp] theorem on_modify (f : σ → σ) : (modify f : ExceptT ε (StateM σ) PUnit).on s = (.ok ⟨⟩, f s) := rfl

theorem on_map (f : α → β) (work : ExceptT ε (StateM σ) α) :
    (f <$> work).on s = ((work.on s).1.map f, (work.on s).2) := by
  rw [map_eq_pure_bind, on_bind]
  rcases work.on s with ⟨e | v, t⟩ <;> rfl

theorem exists_on_of_on_map {f : α → β} {work : ExceptT ε (StateM σ) α} {s t : σ} {v : β}
    (h : (f <$> work).on s = (.ok v, t)) : ∃ u, work.on s = (.ok u, t) ∧ f u = v := by
  rw [on_map] at h
  obtain ⟨hv, rfl⟩ := Prod.mk.inj h
  cases hu : (work.on s).1 with
  | error e =>
    rw [hu] at hv
    cases hv
  | ok u =>
    rw [hu] at hv
    exact ⟨u, Prod.ext hu rfl, Except.ok.inj hv⟩

theorem on_discard (work : ExceptT ε (StateM σ) α) :
    (discard work).on s = ((work.on s).1.map fun _ => (), (work.on s).2) :=
  on_map s _ work

theorem on_tryCatch (work : ExceptT ε (StateM σ) α) (handle : ε → ExceptT ε (StateM σ) α) :
    (tryCatch work handle).on s =
      match work.on s with
      | (.ok v, t) => (.ok v, t)
      | (.error e, t) => (handle e).on t := by
  show ExceptT.tryCatch work handle s = match work s with
    | (.ok v, t) => (.ok v, t)
    | (.error e, t) => handle e t
  simp only [ExceptT.tryCatch, ExceptT.mk, bind, StateT.bind]
  rcases work s with ⟨e | v, t⟩ <;> rfl

end ExceptT
