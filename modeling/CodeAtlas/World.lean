import CodeAtlas.Ask

namespace CodeAtlas

/-- What comes of a question: how what surrounds the program goes on, the seconds until the answer
arrives, and the answer. -/
structure Reaction (ω : Type) (question : Ask) where
  world : ω
  delay : Float
  reply : Except Fault question.Reply

/-- What surrounds the program. It has a state of its own and sees the time of each question. -/
structure World (ω : Type) where
  answer : (question : Ask) → Float → ω → Reaction ω question

end CodeAtlas
