import CodeAtlas.World

namespace CodeAtlas

/-- Surroundings in which files are within reach and services are not. -/
structure Offline where
  files : List (String × Except Fault FileContent)
  deriving Inhabited

namespace Offline

/-- What a question to a service comes to. -/
def unreachable : Fault := .foreign .connection (some "The service is not within reach")

/-- What stands at a path; where nothing is known of it, there is no file. -/
def content (o : Offline) (path : String) : Except Fault FileContent :=
  (o.files.lookup path).getD (.ok .missing)

def world : World Offline where
  answer
    | .contentAt path, _, o => ⟨o, 0, o.content path⟩
    | .hasAccelerator, _, o => ⟨o, 0, .ok false⟩
    | _, _, o => ⟨o, 0, .error unreachable⟩

/-- Nothing that the program asks changes these surroundings. -/
theorem answer_world (q : Ask) (time : Float) (o : Offline) : (world.answer q time o).world = o := by
  cases q <;> rfl

/-- Every answer is there at once, so that no routine waits for one. -/
theorem answer_delay (q : Ask) (time : Float) (o : Offline) : (world.answer q time o).delay = 0 := by
  cases q <;> rfl

end Offline

end CodeAtlas
