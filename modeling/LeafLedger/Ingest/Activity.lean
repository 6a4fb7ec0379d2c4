import LeafLedger.History
import LeafLedger.Notice
import LeafLedger.Retry

namespace LeafLedger

/-- A step that the outside can see. -/
inductive Effect
  | fetched (signature : String)
  | listed (tree : Address) (query : HistoryQuery)
  | slept (delay : Duration)
  | offered (event : Event)
  | noted (notice : Notice)
  deriving DecidableEq

/-- What an activity comes to. -/
structure Outcome (σ α : Type) where
  value : α
  trace : List Effect
  world : σ

/-- Something done in a world `σ` that answers with an `α`. -/
def Activity (σ α : Type) : Type :=
  σ → Outcome σ α

namespace Activity

variable {σ α β : Type}

/-- Does nothing. -/
def pure (a : α) : Activity σ α := fun world =>
  ⟨a, [], world⟩

/-- Does one thing after the other. -/
def bind (first : Activity σ α) (next : α → Activity σ β) : Activity σ β := fun world =>
  let done := first world
  let rest := next done.value done.world
  ⟨rest.value, done.trace ++ rest.trace, rest.world⟩

instance : Monad (Activity σ) where
  pure := Activity.pure
  bind := Activity.bind

/-- Looks at the world. -/
def observe (f : σ → α) : Activity σ α := fun world =>
  ⟨f world, [], world⟩

/-- Takes one step. -/
def step (effect : Effect) (f : σ → α × σ) : Activity σ α := fun world =>
  let (answer, world) := f world
  ⟨answer, [effect], world⟩

def note (notice : Notice) : Activity σ Unit := fun world =>
  ⟨(), [.noted notice], world⟩

def noteAll (notices : List Notice) : Activity σ Unit := fun world =>
  ⟨(), notices.map .noted, world⟩

theorem bind_pure_eq (a : Activity σ α) : a.bind pure = a := by
  funext world
  simp [bind, pure]

theorem bind_assoc_eq {γ : Type} (a : Activity σ α) (f : α → Activity σ β)
    (g : β → Activity σ γ) : (a.bind f).bind g = a.bind fun x => (f x).bind g := by
  funext world
  simp [bind]

instance : LawfulMonad (Activity σ) :=
  LawfulMonad.mk' _ (fun a => bind_pure_eq a) (fun _ _ => rfl) (fun a f g => bind_assoc_eq a f g)

end Activity

end LeafLedger
