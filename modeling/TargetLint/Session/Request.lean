import TargetLint.Session.Event

/-!
# Requests to a session

Besides sending the events of an editor, a front end can ask a session whether a project
has results and for the overview of a project.  All requests are answered by one
function, and a run of a session is a list of requests, each with its own host.
-/

namespace TargetLint

/-- What a front end can ask of a session. -/
inductive SessionRequest where
  | event (event : SessionEvent)
  | hasResults (project : Project)
  | overview (project : Project)
deriving DecidableEq, Repr

/-- What a session replies to a request. -/
inductive SessionReply where
  | answer (answer : SessionAnswer)
  | hasResults (result : Bool)
  | overview (overview : Overview)

/-- A request with the host that is there when it comes. -/
structure Exchange where
  host : Host
  request : SessionRequest

namespace Session

/-- The reply to a request and the session after it. -/
def serve (session : Session) : SessionRequest → Consult (SessionReply × Session)
  | .event event => do
      let (answer, session) ← session.step event
      return (.answer answer, session)
  | .hasResults project => do
      let (result, session) ← session.hasResults project
      return (.hasResults result, session)
  | .overview project => return (.overview (session.overview project), session)

/-- The session after an exchange. -/
def served (session : Session) (exchange : Exchange) : Session :=
  ((session.serve exchange.request).value exchange.host).2

/-- The reply to an exchange's request. -/
def reply (session : Session) (exchange : Exchange) : SessionReply :=
  ((session.serve exchange.request).value exchange.host).1

/-- The commands that are run in an exchange, in their order. -/
def calls (session : Session) (exchange : Exchange) : List Command :=
  ((session.serve exchange.request).asked exchange.host).filterMap Question.command?

/-- The session after a list of exchanges. -/
def servedAll (session : Session) (history : List Exchange) : Session :=
  history.foldl served session

/-- The replies along a list of exchanges. -/
def replies : Session → List Exchange → List SessionReply
  | _, [] => []
  | session, exchange :: later => session.reply exchange :: (session.served exchange).replies later

/-- The commands that are run along a list of exchanges, in their order. -/
def callLog : Session → List Exchange → List Command
  | _, [] => []
  | session, exchange :: later =>
      session.calls exchange ++ (session.served exchange).callLog later

end Session
end TargetLint
