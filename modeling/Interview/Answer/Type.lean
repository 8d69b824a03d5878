import Interview.Answer.Shape
import Interview.Reply
/-
Types of answers: how an answer is kept in a draft and read back from it.

Most types are shapes, and writing an answer of a shape always succeeds. Two further types
stand for the ways in which the passage between an answer and its JSON form can break: a
type that is written but not always read back, and one that is never written.
-/

set_option autoImplicit false

namespace Interview

/-- A type of answers. -/
inductive AnswerType
  /-- The values of a shape. -/
  | shaped (s : Shape)
  /-- Texts that are read back only if they begin with `start`. -/
  | beginning (start : String)
  /-- Texts that have no JSON form; the text itself is the reason that is given. -/
  | unwritable

namespace AnswerType

/-- The answer that a JSON value is. -/
def decode? : AnswerType → Json → Option Json
  | shaped s, v => s.decode? v
  | beginning start, .text s => if start.toList.isPrefixOf s.toList then some (.text s) else none
  | unwritable, .text s => some (.text s)
  | _, _ => none

/-- The JSON form of an answer, or why it has none. -/
def encode : AnswerType → Json → Except String Json
  | unwritable, .text s => .error s
  | _, v => .ok v

/-- What is shown of an answer in a transcript. -/
def shown : AnswerType → Json → Json
  | unwritable, _ => .text "<unencodable>"
  | _, v => v

/-- An attempt whose value is an answer of the type, if it is one. -/
def attempt? (t : AnswerType) (a : Attempt Json) : Option (Attempt Json) :=
  (t.decode? a.value).map fun v => ⟨v, a.error⟩

end AnswerType

end Interview
