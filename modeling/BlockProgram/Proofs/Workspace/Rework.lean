import BlockProgram.Proofs.Workspace.Refusal
import BlockProgram.Proofs.Workspace.Registry

/-! What is lost by edits that are not asked to delete anything. A socket that goes, or gets another block,
lets go of what it held, and a stand-in that is let go is deleted with all that is beneath and after it. So
a block of the user is safe unless it is beneath or after a stand-in. -/
namespace BlockProgram.Workspace

open Edit

/-- An edit of a workspace, or a satellite that is composed in it. -/
inductive Rework where
  | act (a : Action)
  | compose (s : Satellite)
  deriving DecidableEq, Repr

namespace Rework

def apply (w : Workspace) : Rework → Workspace
  | .act a => a.apply w
  | .compose s => ((Workspace.compose s).perform w).2

/-- The edit is asked to delete a block, or to load another program. -/
def Deletes : Rework → Prop
  | .act (.delete _ _) => True
  | .act (.load _) => True
  | _ => False

/-- The edit may give a block another layout. -/
def Rebuilds : Rework → Prop
  | .act (.setField _ _ _) => True
  | .act (.reshape _ _) => True
  | .act (.setVariant _ _) => True
  | .compose _ => True
  | _ => False

/-- The blocks whose sockets are gone or taken after the edit. -/
def evicted (w : Workspace) : Rework → List BlockId
  | .act (.connectValue p s _) => (w.occupant? (.input p s)).toList
  | .act (.setField id name value) => w.unhousedByField id name value
  | .act (.reshape id count) => w.unhoused id (.setCount count)
  | .act (.setVariant id variant) => w.unhoused id (.setVariant variant)
  | .compose s => w.unhousedByUnits s
  | _ => []

/-- The edit takes the block along with the one that it plugs in. -/
def Carries (w : Workspace) (x : BlockId) : Rework → Prop
  | .act (.connectValue _ _ c) => w.Under c x
  | _ => False

end Rework

/-- Every block is still there that is not a stand-in. -/
def KeepsUserBlocks (w w' : Workspace) : Prop := ∀ x, w.has x → ¬ w.standIn x → w'.has x

variable {w w' : Workspace} {x c p id : BlockId} {s : String} {cut : List BlockId} {e : Rework}

private theorem linkFree_has : LinkFree fun w => w.has x where
  modify w id f hf h := by
    have hid (b : Block) : (f b).id = b.id :=
      show (f b).bare.id = b.bare.id from congrArg Block.id (hf b)
    rwa [has_modify hid]

private theorem keeps_has_add {type : String} {shadow : Bool} :
    (add id type shadow).Keeps fun w => w.has x := by
  intro w h
  unfold add
  rw [ensures_bind, ensures_get]
  dsimp only
  split
  · exact h
  · cases w.shapes.get? type with
    | none => exact h
    | some shape =>
      rw [has_iff_mem_ids] at h
      exact has_iff_mem_ids.mpr (by simp [ids, show x ∈ w.blocks.map (·.id) from h])

/-- `w'` is `w`, or what it held in a socket is gone if it was a stand-in, but not what is beneath `c`. -/
private def Supplants (w : Workspace) (p : BlockId) (s : String) (c : BlockId) (w' : Workspace) : Prop :=
  w' = w ∨ (∀ old ∈ w.occupant? (.input p s), ¬ w.Under c old) ∧
    ∀ x, w'.has x ↔ w.has x ∧
      ¬ ∃ old ∈ w.occupant? (.input p s), w.standIn old ∧ w.Under old x ∧ ¬ w.Under c x

private theorem Linked.supplants_connectValue (h : w.Linked) (p : BlockId) (s : String) (c : BlockId) :
    w.Supplants p s c ((connectValue p s c).perform w).2 := by
  refine Ensures.after (P := w.Supplants p s c) ?_
  refine h.ensures_connectValue (fun _ => .inl rfl) (fun _ => .inl rfl) fun b k d _ _ hd _ hne hu => ?_
  have habove := h.not_under_occupant hne hu
  have hhas := h.has_displaced hne hu
  have hc := (hhas c).mpr ⟨has_iff.mpr ⟨d, hd⟩, fun ⟨_, _, _, _, hno⟩ => hno .self⟩
  refine ensures_attachInput hc (fun _ => .inr ⟨habove, fun x => ?_⟩) fun _ _ => .inr ⟨habove, hhas⟩
  rw [has_attached, hhas]

private theorem Supplants.sheds (h : w.Supplants p s c w') : w.Sheds w' := by
  rcases h with rfl | ⟨habove, hhas⟩
  · exact .refl w'
  · intro x hx
    by_cases hgone : ∃ old ∈ w.occupant? (.input p s), w.standIn old ∧ w.Under old x ∧ ¬ w.Under c x
    · obtain ⟨old, hold, hshadow, hu, -⟩ := hgone
      refine .inr ⟨old, hshadow, fun hkept => ?_, hu⟩
      exact ((hhas old).mp hkept).2 ⟨old, hold, hshadow, .self, habove old hold⟩
    · exact .inl ((hhas x).mpr ⟨hx, hgone⟩)

/-- Whatever is lost is beneath a stand-in that is lost, also where links form circles. -/
theorem Rework.sheds (h : Sound False False w)
    (hplain : ∀ shape ∈ w.shapes.shapes, shape.Plain) (he : ¬ e.Deletes) : w.Sheds (e.apply w) := by
  cases e with
  | compose s =>
    exact (h.ensures_compose (s := s) fun _ _ _ hc => h.fitting hplain hc).mono
      (fun _ _ ⟨_, _, _, _, hre, _⟩ => hre.sheds) (fun _ _ h' => h'.2) |>.after
  | act a =>
    cases a with
    | delete => exact (he trivial).elim
    | load => exact (he trivial).elim
    | add => exact .of_has fun x hx => keeps_has_add.perform hx
    | connectValue p s c => exact (h.linked.supplants_connectValue p s c).sheds
    | connectStatement => exact .of_has fun x hx => linkFree_has.connectStatement.perform hx
    | connectNext => exact .of_has fun x hx => linkFree_has.connectNext.perform hx
    | disconnect => exact .of_has fun x hx => linkFree_has.detach.perform hx
    | unplug => exact .of_has fun x hx => linkFree_has.unplug.perform hx
    | setField id name value =>
      exact (h.ensures_setField id name value).mono (fun _ _ h' => h'.2) (fun _ _ h' => h'.2) |>.after
    | reshape id count =>
      exact (h.ensures_applyEvent id _).mono (fun _ _ h' => h'.2) (fun _ _ h' => h'.2) |>.after
    | setVariant id variant =>
      exact (h.ensures_applyEvent id _).mono (fun _ _ h' => h'.2) (fun _ _ h' => h'.2) |>.after

private theorem Evicts.spares (h : w.Evicts cut w') (hx : w.has x) :
    w'.has x ↔ ∀ c ∈ cut, w.standIn c → ¬ w.Under c x := by
  rw [h x]
  simp [hx, Dropped]

/-- An edit that is refused before it has changed anything evicts nothing. -/
theorem spares_of_ensures {ε α : Type} {edit : Edit ε α} (hx : w.has x)
    (h : edit.Ensures w (fun _ => w.Evicts cut) fun _ w' => w' = w) :
    (edit.perform w).2 = w ∨
      ((edit.perform w).2.has x ↔ ∀ c ∈ cut, w.standIn c → ¬ w.Under c x) :=
  Ensures.after (P := fun w' => w' = w ∨ (w'.has x ↔ ∀ c ∈ cut, w.standIn c → ¬ w.Under c x))
    (h.mono (fun _ _ h' => .inr (h'.spares hx)) fun _ _ h' => .inl h')

/-- An edit that changes anything deletes the stand-ins among the blocks that it evicts, with all that is
beneath them but what it plugs in itself. Where links form a circle, a block that is rebuilt may be deleted
before all of its sockets are empty. -/
theorem Rework.has_apply (h : Sound False False w) (hforest : e.Rebuilds → w.Acyclic)
    (he : ¬ e.Deletes) (hx : w.has x) : (e.apply w).has x ↔ e.apply w = w ∨
      ∀ c ∈ e.evicted w, w.standIn c → w.Under c x → e.Carries w x := by
  have hs (hr : e.Rebuilds) : Sound True False w :=
    { h with
      regular := False.elim
      acyclic := fun _ => hforest hr }
  suffices hcases : e.apply w = w ∨ ((e.apply w).has x ↔
      ∀ c ∈ e.evicted w, w.standIn c → w.Under c x → e.Carries w x) by
    rcases hcases with hsame | hiff
    · simp [hsame, hx]
    · refine ⟨fun hx' => .inr (hiff.mp hx'), fun h' => h'.elim (fun hsame => ?_) hiff.mpr⟩
      rwa [hsame]
  have hkept (hx' : (e.apply w).has x) (hnone : e.evicted w = []) : e.apply w = w ∨
      ((e.apply w).has x ↔ ∀ c ∈ e.evicted w, w.standIn c → w.Under c x → e.Carries w x) := by
    simp [hx', hnone]
  cases e with
  | compose s => exact spares_of_ensures hx ((hs trivial).ensures_compose_forest s)
  | act a =>
    cases a with
    | delete => exact (he trivial).elim
    | load => exact (he trivial).elim
    | add => exact hkept (keeps_has_add.perform hx) rfl
    | connectStatement => exact hkept (linkFree_has.connectStatement.perform hx) rfl
    | connectNext => exact hkept (linkFree_has.connectNext.perform hx) rfl
    | disconnect => exact hkept (linkFree_has.detach.perform hx) rfl
    | unplug => exact hkept (linkFree_has.unplug.perform hx) rfl
    | connectValue p s c =>
      refine (h.linked.supplants_connectValue p s c).imp_right fun ⟨_, hhas⟩ => ?_
      change ((connectValue p s c).perform w).2.has x ↔
        ∀ old ∈ (w.occupant? (.input p s)).toList, w.standIn old → w.Under old x → w.Under c x
      rw [hhas]
      simp [hx]
    | setField id name value =>
      exact spares_of_ensures hx ((hs trivial).ensures_setField_forest id name value)
    | reshape id count =>
      exact spares_of_ensures hx
        (((hs trivial).ensures_applyEvent_forest id _).mono (fun _ _ h' => h') fun _ _ h' => h'.1)
    | setVariant id variant =>
      exact spares_of_ensures hx
        (((hs trivial).ensures_applyEvent_forest id _).mono (fun _ _ h' => h') fun _ _ h' => h'.1)

private theorem has_of_standIn (h : w.standIn c) : w.has c := by
  obtain ⟨b, hb, -⟩ := standIn_iff.mp h
  exact has_of_bare? hb

/-- Blocks of the user are lost only together with a stand-in that they are beneath or after. An edit keeps
all of them exactly if it changes nothing or carries along those that are beneath a stand-in which it evicts;
where links form circles, this is said of the edits that do not rebuild a block. -/
theorem keepsUserBlocks_iff (h : Reached Python.standard.shapes w) (he : ¬ e.Deletes) :
    w.Sheds (e.apply w) ∧ ((e.Rebuilds → w.Acyclic) →
      (w.KeepsUserBlocks (e.apply w) ↔ e.apply w = w ∨ ∀ c ∈ e.evicted w, w.standIn c →
        ∀ x, w.Under c x → w.standIn x ∨ e.Carries w x)) := by
  refine ⟨Rework.sheds h.sound (h.shapes_eq ▸ Python.standard_plain) he, fun hforest => ?_⟩
  constructor
  · intro hkeeps
    by_cases hsame : e.apply w = w
    · exact .inl hsame
    refine .inr fun c hc hshadow x hu => or_iff_not_imp_left.mpr fun huser => ?_
    have hx : w.has x := hu.has_below (has_of_standIn hshadow)
    exact ((Rework.has_apply h.sound hforest he hx).mp (hkeeps x hx huser)).resolve_left hsame c hc hshadow hu
  · intro hsafe x hx huser
    refine (Rework.has_apply h.sound hforest he hx).mpr (hsafe.imp_right fun hsafe c hc hshadow hu => ?_)
    exact (hsafe c hc hshadow x hu).resolve_left huser

/-- A text stands in a join of texts that stands in for what is printed. It is printed itself, and goes
along while the join is deleted. -/
theorem keepsUserBlocks_of_carried :
    let print : BlockId := ⟨"print"⟩
    let join : BlockId := ⟨"join"⟩
    let text : BlockId := ⟨"text"⟩
    let w := [Action.add print "text_print" false, .add join "text_join" true,
      .connectValue print "TEXT" join, .add text "text" false,
      .connectValue join "ITEM0" text].foldl Action.apply (.empty Python.standard.shapes)
    let e : Rework := .act (.connectValue print "TEXT" text)
    Reached Python.standard.shapes w ∧ ¬ e.Deletes ∧ w.Acyclic ∧
      w.Sheds (e.apply w) ∧ ¬ (e.apply w).has join ∧ w.KeepsUserBlocks (e.apply w) := by
  intro print join text w e
  have hw : Edited Python.standard.shapes w := Edited.empty.run _
  have hs : Sound True False w := hw.sound Python.standard_distinct False.elim
  have ha := hs.acyclic trivial
  obtain ⟨hsheds, hiff⟩ := keepsUserBlocks_iff (e := e) hw.reached fun h => h
  refine ⟨hw.reached, fun h => h, ha, hsheds, by decide +kernel, (hiff fun _ => ha).mpr (.inr ?_)⟩
  have hevicted : e.evicted w = [join] := by decide +kernel
  have hbeneath : w.descendants join = [join, text] := by decide +kernel
  intro c hc hshadow x hu
  obtain rfl : c = join := by simpa [hevicted] using hc
  have hx := (hs.linked.mem_descendants (has_of_standIn hshadow)).mpr hu
  obtain rfl | rfl : x = join ∨ x = text := by simpa [hbeneath] using hx
  · exact .inl hshadow
  · exact .inr .self

/-- A text stands in a join of texts that stands in for what is printed. When another text is printed, the
first one is deleted together with the join. -/
theorem userBlock_lost_of_displaced :
    let print : BlockId := ⟨"print"⟩
    let join : BlockId := ⟨"join"⟩
    let w := [Action.add print "text_print" false, .add join "text_join" true,
      .connectValue print "TEXT" join, .add ⟨"text"⟩ "text" false,
      .connectValue join "ITEM0" ⟨"text"⟩, .add ⟨"other"⟩ "text" false].foldl Action.apply
        (.empty Python.standard.shapes)
    Reached Python.standard.shapes w ∧
      ¬ w.KeepsUserBlocks ((Rework.act (.connectValue print "TEXT" ⟨"other"⟩)).apply w) := by
  intro print join w
  refine ⟨(Edited.empty.run _).reached, fun hkeeps => ?_⟩
  have hlost : ¬ ((Rework.act (.connectValue print "TEXT" ⟨"other"⟩)).apply w).has ⟨"text"⟩ := by
    decide +kernel
  exact hlost (hkeeps ⟨"text"⟩ (by decide +kernel) (by decide +kernel))

end BlockProgram.Workspace
