import BlockProgram.Workspace.Basic

/-! What an edit leads to, read off step by step. The two endings of an edit are kept apart: an edit
that is refused may already have written, so a statement speaks about the workspace of both. -/
namespace BlockProgram.Edit

variable {ε ε' α β : Type}

/-- `ok` holds of the answer and the workspace if the edit is carried out, and `refused` of the
reason and the workspace if it is not. -/
def Ensures (e : Edit ε α) (w : Workspace) (ok : α → Workspace → Prop)
    (refused : ε → Workspace → Prop) : Prop :=
  match e.perform w with
  | (.ok a, w') => ok a w'
  | (.error err, w') => refused err w'

variable {w : Workspace} {ok : α → Workspace → Prop} {refused : ε → Workspace → Prop}

theorem Ensures.of_ok {e : Edit ε α} {a : α} {w' : Workspace} (h : e.Ensures w ok refused)
    (he : e.perform w = (.ok a, w')) : ok a w' := by
  unfold Ensures at h
  rwa [he] at h

theorem Ensures.of_error {e : Edit ε α} {err : ε} {w' : Workspace} (h : e.Ensures w ok refused)
    (he : e.perform w = (.error err, w')) : refused err w' := by
  unfold Ensures at h
  rwa [he] at h

/-- What an edit ensures may be weakened. -/
theorem Ensures.mono {e : Edit ε α} {ok' : α → Workspace → Prop} {refused' : ε → Workspace → Prop}
    (h : e.Ensures w ok refused) (hok : ∀ a w', ok a w' → ok' a w')
    (hrefused : ∀ err w', refused err w' → refused' err w') : e.Ensures w ok' refused' := by
  unfold Ensures at h ⊢
  split at h
  · exact hok _ _ h
  · exact hrefused _ _ h

theorem Ensures.and {e : Edit ε α} {ok' : α → Workspace → Prop}
    {refused' : ε → Workspace → Prop} (h : e.Ensures w ok refused)
    (h' : e.Ensures w ok' refused') :
    e.Ensures w (fun a w' => ok a w' ∧ ok' a w') fun err w' => refused err w' ∧ refused' err w' := by
  unfold Ensures at h h' ⊢
  split at h <;> simp_all

/-- What holds of either ending holds of the workspace after the edit. -/
theorem Ensures.after {e : Edit ε α} {P : Workspace → Prop}
    (h : e.Ensures w (fun _ w' => P w') fun _ w' => P w') : P (e.perform w).2 := by
  unfold Ensures at h
  split at h <;> simp_all

/-- An edit that cannot be refused is carried out. -/
theorem Ensures.exists_ok {e : Edit ε α} (h : e.Ensures w ok fun _ _ => False) :
    ∃ a w', e.perform w = (.ok a, w') ∧ ok a w' := by
  unfold Ensures at h
  split at h
  · rename_i a w' he
    exact ⟨a, w', he, h⟩
  · exact h.elim

theorem Ensures.exists_error {e : Edit ε α} (h : e.Ensures w (fun _ _ => False) refused) :
    ∃ err w', e.perform w = (.error err, w') ∧ refused err w' := by
  unfold Ensures at h
  split at h
  · exact h.elim
  · rename_i err w' he
    exact ⟨err, w', he, h⟩

/-- Of two edits in a row the second one is carried out only if the first one is not refused. -/
theorem perform_bind (e : Edit ε α) (f : α → Edit ε β) (w : Workspace) :
    (e >>= f).perform w = match e.perform w with
      | (.ok a, w') => (f a).perform w'
      | (.error err, w') => (.error err, w') := by
  change (ExceptT.bindCont f ((ExceptT.run e).run w).1).run ((ExceptT.run e).run w).2 = _
  unfold Edit.perform
  rcases (ExceptT.run e).run w with ⟨_ | a, w'⟩ <;> rfl

@[simp] theorem ensures_bind {e : Edit ε α} {f : α → Edit ε β} {ok : β → Workspace → Prop} :
    (e >>= f).Ensures w ok refused ↔
      e.Ensures w (fun a w' => (f a).Ensures w' ok refused) refused := by
  unfold Ensures
  rw [perform_bind]
  rcases e.perform w with ⟨_ | a, w'⟩ <;> rfl

@[simp] theorem ensures_pure {a : α} : (pure a : Edit ε α).Ensures w ok refused ↔ ok a w := Iff.rfl

@[simp] theorem ensures_throw {err : ε} :
    (throw err : Edit ε α).Ensures w ok refused ↔ refused err w := Iff.rfl

@[simp] theorem ensures_get {ok : Workspace → Workspace → Prop} :
    (get : Edit ε Workspace).Ensures w ok refused ↔ ok w w := Iff.rfl

@[simp] theorem ensures_set {w' : Workspace} {ok : PUnit → Workspace → Prop} :
    (set w' : Edit ε PUnit).Ensures w ok refused ↔ ok ⟨⟩ w' := Iff.rfl

@[simp] theorem ensures_modify {f : Workspace → Workspace} {ok : PUnit → Workspace → Prop} :
    (modifyThe Workspace f : Edit ε PUnit).Ensures w ok refused ↔ ok ⟨⟩ (f w) := Iff.rfl

@[simp] theorem ensures_refusedAs {e : Edit ε α} {f : ε → ε'} {refused : ε' → Workspace → Prop} :
    (e.refusedAs f).Ensures w ok refused ↔ e.Ensures w ok fun err => refused (f err) := by
  have h : (e.refusedAs f).perform w = ((e.perform w).1.mapError f, (e.perform w).2) := rfl
  unfold Ensures
  rw [h]
  rcases e.perform w with ⟨_ | a, w'⟩ <;> rfl

@[simp] theorem ensures_ofResult {result : Except ε α} :
    (ofResult result).Ensures w ok refused ↔ match result with
      | .ok a => ok a w
      | .error err => refused err w := by
  cases result <;> rfl

@[simp] theorem ensures_discard {e : Edit ε α} {ok : PUnit → Workspace → Prop} :
    (discard e).Ensures w ok refused ↔ e.Ensures w (fun _ w' => ok ⟨⟩ w') refused := by
  change (e >>= fun _ => pure PUnit.unit).Ensures w ok refused ↔ _
  rw [ensures_bind]
  rfl

/-- A loop ends well if every turn keeps the invariant of what remains. -/
theorem ensures_forM {f : α → Edit ε PUnit} {I : List α → Workspace → Prop}
    (step : ∀ a rest w, I (a :: rest) w → (f a).Ensures w (fun _ w' => I rest w') refused)
    (l : List α) (w : Workspace) (h : I l w) :
    (l.forM f).Ensures w (fun _ w' => I [] w') refused := by
  induction l generalizing w with
  | nil => exact h
  | cons a rest ih =>
    change (f a >>= fun _ => rest.forM f).Ensures w _ refused
    rw [ensures_bind]
    exact (step a rest w h).mono (fun _ w' h' => ih w' h') fun _ _ h' => h'

/-- The property holds after the edit if it held before, whether the edit is carried out or not. -/
def Keeps (e : Edit ε α) (P : Workspace → Prop) : Prop :=
  ∀ w, P w → e.Ensures w (fun _ w' => P w') fun _ w' => P w'

/-- A property that an edit keeps holds afterwards, be the edit carried out or refused. -/
theorem Keeps.perform {e : Edit ε α} {P : Workspace → Prop} (h : e.Keeps P) (hw : P w) :
    P (e.perform w).2 := (h w hw).after

namespace Keeps

variable {P : Workspace → Prop} {e : Edit ε α}

theorem bind {f : α → Edit ε β} (he : e.Keeps P) (hf : ∀ a, (f a).Keeps P) :
    (e >>= f).Keeps P := by
  intro w h
  rw [ensures_bind]
  exact (he w h).mono (fun a w' h' => hf a w' h') fun _ _ h' => h'

theorem pure {a : α} : (Pure.pure a : Edit ε α).Keeps P := fun _ h => h

theorem throw {err : ε} : (MonadExcept.throw err : Edit ε α).Keeps P := fun _ h => h

/-- A check before the rest of an edit. -/
theorem check {c : Prop} [Decidable c] {err : ε} {f : PUnit → Edit ε α} (hf : (f ⟨⟩).Keeps P) :
    (if c then MonadExcept.throw err >>= f else f ⟨⟩).Keeps P := by
  split
  · exact fun _ h => h
  · exact hf

theorem get : (MonadState.get : Edit ε Workspace).Keeps P := fun _ h => h

theorem modify {f : Workspace → Workspace} (hf : ∀ w, P w → P (f w)) :
    (modifyThe Workspace f : Edit ε PUnit).Keeps P := hf

theorem ofResult {result : Except ε α} : (Edit.ofResult result).Keeps P := by
  intro w h
  rw [ensures_ofResult]
  cases result <;> exact h

theorem refusedAs {f : ε → ε'} (he : e.Keeps P) : (e.refusedAs f).Keeps P := by
  intro w h
  rw [ensures_refusedAs]
  exact he w h

theorem forM {f : α → Edit ε PUnit} (hf : ∀ a, (f a).Keeps P) (l : List α) :
    (l.forM f).Keeps P := fun w h =>
  ensures_forM (I := fun _ => P) (fun a _ w h => hf a w h) l w h

end Keeps

end BlockProgram.Edit
