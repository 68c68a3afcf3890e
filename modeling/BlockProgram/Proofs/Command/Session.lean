import BlockProgram.Command.Session
import Mathlib.Data.List.Basic

/-! Sessions as programs of their host: what is told is put behind what has been told already. A host can also
note what is read; without the notes everything is as before, and on a machine the notes of a program are those
of its steps. -/
namespace BlockProgram.Command

variable {m : Type → Type} [Monad m]

namespace Session

variable {α : Type}

/-- Carry out a session that goes on with what has been written already. -/
def performFrom (console : Console) (s : Session m Nat) : m (Nat × Console) := do
  let (result, console) ← (ExceptT.run s).run console
  match result with
  | .ok code => return (code, console)
  | .error code => return (code, console)

theorem perform_eq (s : Session m Nat) : s.perform = s.performFrom {} := rfl

variable [LawfulMonad m]

/-- What the machine answers is taken over, and nothing is written meanwhile. -/
theorem performFrom_lift (console : Console) (x : m α) (f : α → Session m Nat) :
    performFrom console ((x : Session m α) >>= f) = x >>= fun a => performFrom console (f a) := by
  have hlift : ExceptT.run (x : Session m α) = (Except.ok <$> StateT.lift x : StateT Console m _) := rfl
  simp [performFrom, ExceptT.run_bind, hlift]

theorem performFrom_tell (console : Console) (text : String) (f : Unit → Session m Nat) :
    performFrom console (tell text >>= f) =
      performFrom { console with err := console.err ++ text } (f ()) := by
  have hrun : ExceptT.run (tell text : Session m Unit) =
      (do modify fun c => { c with err := c.err ++ text }; return .ok () : StateT Console m _) := rfl
  simp [performFrom, ExceptT.run_bind, hrun]

theorem performFrom_pure (console : Console) (code : Nat) :
    performFrom console (pure code : Session m Nat) = pure (code, console) := by
  simp [performFrom]

end Session

/-- The host, which also notes the paths of the files that are read. -/
def Host.noting (h : Host m) : Host (StateT (List String) m) where
  readText path := do
    modify (· ++ [path])
    h.readText path
  writeText path text := h.writeText path text
  remove path := h.remove path
  isFile path := h.isFile path
  tree path := h.tree path
  sourceName := h.sourceName
  start launch := h.start launch

def Context.noting (c : Context m) : Context (StateT (List String) m) where
  host := c.host.noting
  options := c.options
  settings := c.settings

section Unnoted

variable [LawfulMonad m] {α β : Type} {x : StateT (List String) m α} {y : m α}

/-- Without its notes `x` does what `y` does. -/
def Unnoted (x : StateT (List String) m α) (y : m α) : Prop :=
  ∀ noted, Prod.fst <$> x.run noted = y

theorem unnoted_pure (a : α) : Unnoted (pure a : StateT (List String) m α) (pure a) := fun noted => by
  rw [StateT.run_pure, map_pure]

theorem unnoted_lift (y : m α) : Unnoted (y : StateT (List String) m α) y := fun noted => by
  have hlift : (y : StateT (List String) m α).run noted = (do return (← y, noted) : m _) := rfl
  rw [hlift, map_bind]
  simp only [map_pure, bind_pure]

/-- Notes change nothing about a program whose steps they change nothing about. -/
theorem Unnoted.bind (hx : Unnoted x y) {f : α → StateT (List String) m β} {g : α → m β}
    (hf : ∀ a, Unnoted (f a) (g a)) : Unnoted (x >>= f) (y >>= g) := fun noted => by
  rw [StateT.run_bind, map_bind, ← hx noted, bind_map_left]
  exact bind_congr fun found => hf found.1 found.2

theorem unnoted_mapM {l : List α} {f : α → StateT (List String) m β} {g : α → m β}
    (h : ∀ a ∈ l, Unnoted (f a) (g a)) : Unnoted (l.mapM f) (l.mapM g) := by
  induction l with
  | nil => exact unnoted_pure []
  | cons a l ih =>
    obtain ⟨ha, hl⟩ := List.forall_mem_cons.mp h
    rw [List.mapM_cons, List.mapM_cons]
    exact ha.bind fun b => (ih hl).bind fun bs => unnoted_pure (b :: bs)

theorem unnoted_readText (h : Host m) (path : String) :
    Unnoted (h.noting.readText path) (h.readText path) := fun noted => by
  have hrun : (h.noting.readText path).run noted =
      (h.readText path : StateT (List String) m _).run (noted ++ [path]) := by
    simp [Host.noting]
  rw [hrun]
  exact unnoted_lift _ _

end Unnoted

section Noting

variable {σ α β : Type} {noted noted' : List String} {s s' : σ}

theorem stateM_run_bind {x : StateM σ α} {a : α} (hx : x.run s = (a, s')) (f : α → StateM σ β) :
    (x >>= f).run s = (f a).run s' := by
  rw [StateT.run_bind, hx]
  rfl

theorem run_bind {x : StateT (List String) (StateM σ) α} {a : α}
    (hx : (x.run noted).run s = ((a, noted'), s')) (f : α → StateT (List String) (StateM σ) β) :
    ((x >>= f).run noted).run s = ((f a).run noted').run s' := by
  rw [StateT.run_bind, stateM_run_bind hx]

theorem run_lift {x : StateM σ α} {a : α} (hx : x.run s = (a, s')) (noted : List String) :
    ((x : StateT (List String) (StateM σ) α).run noted).run s = ((a, noted), s') := by
  have hlift : (x : StateT (List String) (StateM σ) α).run noted =
      (do return (← x, noted) : StateM σ _) := rfl
  rw [hlift, stateM_run_bind hx]
  rfl

/-- If each step adds what it notes and changes nothing else, so do all of them in a row. -/
theorem run_mapM {l : List α} {f : α → StateT (List String) (StateM σ) β} {g : α → β}
    {w : α → List String}
    (h : ∀ a ∈ l, ∀ noted, ((f a).run noted).run s = ((g a, noted ++ w a), s)) (noted : List String) :
    ((l.mapM f).run noted).run s = ((l.map g, noted ++ l.flatMap w), s) := by
  induction l generalizing noted with
  | nil =>
    rw [List.mapM_nil, List.flatMap_nil, List.append_nil]
    rfl
  | cons a l ih =>
    obtain ⟨ha, hl⟩ := List.forall_mem_cons.mp h
    rw [List.mapM_cons, run_bind (ha noted), run_bind (ih hl _), List.flatMap_cons,
      List.append_assoc]
    rfl

/-- A file that is read is noted once, and the machine stays as it is. -/
theorem run_readText {h : Host (StateM σ)} {path : String} (hread : ((h.readText path).run s).2 = s)
    (noted : List String) : ((h.noting.readText path).run noted).run s =
      ((((h.readText path).run s).1, noted ++ [path]), s) := by
  have hmodify : ((modify (· ++ [path]) : StateT (List String) (StateM σ) PUnit).run noted).run s =
      ((⟨⟩, noted ++ [path]), s) := rfl
  have hcontent : (h.readText path).run s = (((h.readText path).run s).1, s) := Prod.ext rfl hread
  exact (run_bind hmodify _).trans (run_lift hcontent _)

end Noting

end BlockProgram.Command
