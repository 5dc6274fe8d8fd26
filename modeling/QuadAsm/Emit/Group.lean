/-!
# Groups of tasks

Tasks that run side by side. A task that starts after another has failed gives up at once; the
first failure is kept, and the group answers with it after all tasks have ended. The result of a
task goes to the place of the task, so results come in the order of the tasks and not in the order
in which they finish. A schedule is the order in which tasks start and finish.
-/

namespace QuadAsm.Emit

/-- Why a task did not finish its work. -/
inductive TaskError (ε : Type) where
  /-- The work itself failed. -/
  | failed (cause : ε)
  /-- Another task had failed before this one started. -/
  | cancelled
  deriving DecidableEq, Repr

/-- A step of a schedule. -/
inductive TaskEvent where
  | start (task : Nat)
  | finish (task : Nat)
  deriving DecidableEq, Repr

/-- A group of tasks at some moment. -/
structure Group (ε α : Type) where
  results : List α
  /-- The first failure. -/
  failure : Option (TaskError ε) := none
  /-- Tasks that gave up when they started. -/
  gaveUp : List Nat := []
  deriving Repr

namespace Group

variable {ε α : Type}

/-- A group in which no task has started. -/
def fresh [Inhabited α] (count : Nat) : Group ε α := ⟨List.replicate count default, none, []⟩

/-- Keeps a failure, if it is the first. -/
def keep (g : Group ε α) (e : TaskError ε) : Group ε α :=
  { g with failure := g.failure.or (some e) }

/-- What an event does, given what the tasks compute. -/
def step (tasks : List (Except ε α)) (g : Group ε α) : TaskEvent → Group ε α
  | .start i => if g.failure.isSome then { g with gaveUp := i :: g.gaveUp } else g
  | .finish i =>
    if i ∈ g.gaveUp then g.keep .cancelled
    else
      match tasks[i]? with
      | some (.ok a) => { g with results := g.results.set i a }
      | some (.error e) => g.keep (.failed e)
      | none => g

/-- What the group answers in the end. -/
def answer (g : Group ε α) : Except (TaskError ε) (List α) :=
  match g.failure with
  | some e => .error e
  | none => .ok g.results

/-- Runs the tasks by a schedule. -/
def run [Inhabited α] (tasks : List (Except ε α)) (schedule : List TaskEvent) :
    Except (TaskError ε) (List α) :=
  (schedule.foldl (step tasks) (fresh tasks.length)).answer

/-- One task after the other. -/
def inOrder (count : Nat) : List TaskEvent :=
  (List.range count).flatMap fun i => [.start i, .finish i]

end Group

end QuadAsm.Emit
