import Systolic.Session.Basic

/-!
# Step-mode conversations

Requests are answered line by line until one of them, or the machine's halt, ends the session. A line that asks for
nothing is refused and has no effect; the end of the input quits.
-/

namespace Systolic.Session

/-- How a conversation went. -/
structure Conversation where
  session : Session
  output : String
  refusals : List Request.Refusal
  result : Except Fault Summary

def converse (s : Session) : List (List Char) → Conversation
  | [] => ⟨s, "", [], .ok s.machine.summary⟩
  | line :: rest =>
    match Request.parse line with
    | .error refusal =>
      let c := converse s rest
      { c with refusals := refusal :: c.refusals }
    | .ok request =>
      let reply := s.answer request
      match reply.ended with
      | some result => ⟨reply.session, reply.output, [], result⟩
      | none =>
        let c := converse reply.session rest
        { c with output := reply.output ++ c.output }

/-- A refused line changes nothing but the list of refusals. -/
theorem converse_refused (s : Session) {line : List Char} {refusal : Request.Refusal} (rest : List (List Char))
    (h : Request.parse line = .error refusal) :
    (s.converse (line :: rest)).session = (s.converse rest).session ∧
      (s.converse (line :: rest)).output = (s.converse rest).output := by
  simp [converse, h]

end Systolic.Session
