import BlockProgram.Proofs.Document.Connection
import BlockProgram.Proofs.Document.Record

/-! A workspace that is restored from a document is sound, whatever the document says: every block gets
the layout of its shape, and every connection is one that the workspace admits. -/
namespace BlockProgram.Workspace

open Edit

variable {rooted typed : Prop} {w : Workspace}

theorem Sound.ensures_restoreBlock (h : Sound rooted typed w) (r : BlockRecord) :
    (restoreBlock r).Ensures w (fun _ w' => Sound rooted typed w') fun _ _ => True :=
  Workspace.ensures_restoreBlock
    (fun hn shape m hr => h.added (b := r.block shape m) hn r.bare_block ⟨shape, hr.known, rfl, rfl⟩)
    fun _ _ _ => trivial

theorem Sound.ensures_restoreConnection (h : Sound rooted typed w) (link : Connection) :
    (restoreConnection link).Ensures w (fun _ w' => Sound rooted typed w') fun _ _ => True :=
  h.linked.ensures_restoreConnection
    (fun ha => h.attached ha.offers ha.vacant ha.has_child ha.free ha.follows (fun _ => ha.rooted)
      (ha.fits.weaken fun _ => trivial))
    fun _ _ _ => trivial

theorem Sound.ensures_restoreAll (h : Sound rooted typed w) (d : Document) :
    (restoreAll d).Ensures w (fun _ w' => Sound rooted typed w') fun _ _ => True := by
  unfold restoreAll
  rw [ensures_bind]
  refine (ensures_forM (I := fun _ => Sound rooted typed)
    (fun r _ w' h' => h'.ensures_restoreBlock r) d.blocks w h).mono (fun _ w' h' => ?_)
    fun _ _ h' => h'
  exact ensures_forM (I := fun _ => Sound rooted typed)
    (fun c _ w'' h'' => h''.ensures_restoreConnection c) d.connections w' h'

/-- What an accepted document says is carried out, all of it. -/
theorem restoreAll_of_restore {shapes : ShapeRegistry} {d : Document}
    (h : d.restore shapes = .ok w) : (restoreAll d).perform (.empty shapes) = (.ok (), w) := by
  unfold Document.restore at h
  split at h
  · cases h
  · split at h
    · rename_i he
      cases h
      exact he
    · cases h

/-- Whatever a document says, the workspace that it is restored to is sound. -/
theorem sound_of_restore {shapes : ShapeRegistry} {d : Document} (hd : shapes.Distinct)
    (hr : typed → shapes.Regular rooted) (h : d.restore shapes = .ok w) : Sound rooted typed w := by
  have hall : (restoreAll d).Ensures (.empty shapes) (fun _ w' => Sound rooted typed w')
      fun _ _ => True := (sound_empty hd hr).ensures_restoreAll d
  exact hall.of_ok (restoreAll_of_restore h)

/-- A text is loaded as a document, or refused. -/
theorem keeps_loaded {P : Workspace → Prop} {text : String}
    (hP : ∀ (w w' : Workspace) (d : Document), P w → d.restore w.shapes = .ok w' → P w') :
    (load text).Keeps P := by
  intro w h
  unfold load
  rw [ensures_bind, ensures_get]
  cases ho : ofJson w.shapes text with
  | error e => exact h
  | ok w' =>
    unfold ofJson at ho
    split at ho
    · rename_i d _
      exact hP w w' d h ho
    · cases ho

theorem keeps_load (text : String) : (load text).Keeps (Sound rooted typed) :=
  keeps_loaded fun _ _ _ h ho => sound_of_restore h.distinct h.regular ho

end BlockProgram.Workspace
