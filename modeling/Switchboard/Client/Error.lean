import Switchboard.Api.EngineError
import Switchboard.Text.Duration
/-!
Everything that may go wrong with a client's call, with the message of each failure.
-/
namespace Switchboard

/-- Where a client stands in its life. -/
inductive ClientState where
  | uninitialized
  | active
  | destroyed
  deriving DecidableEq, Repr

namespace ClientState

/-- The state in a sentence. -/
def shown : ClientState → String
  | .uninitialized => "uninitialized"
  | .active => "active"
  | .destroyed => "destroyed"

/-- The name of the state. -/
def name : ClientState → String
  | .uninitialized => "Uninitialized"
  | .active => "Active"
  | .destroyed => "Destroyed"

end ClientState

/-- What a client may refuse to do in some states. -/
inductive Operation where
  | createContext
  | sendRequest
  deriving DecidableEq, Repr

/-- The operation in a sentence. -/
def Operation.shown : Operation → String
  | .createContext => "create context"
  | .sendRequest => "send request"

/-- Why the engine's library could not be loaded. -/
inductive LoadError where
  | notFound (library : String)
  | symbolMissing (library symbol : String)
  | unloadable
  deriving DecidableEq, Repr

/-- The message of a failure to load. -/
def LoadError.message : LoadError → String
  | .notFound library => "Library not found: " ++ library
  | .symbolMissing library symbol =>
    "Symbol '" ++ symbol ++ "' not found in library '" ++ library ++ "'"
  | .unloadable => "Failed to load library"

/-- Why the engine's answer to the making of a context makes none. -/
inductive ContextFailure where
  | noHandle
  | unreadable (response : Bytes)
  deriving DecidableEq

/-- What is wrong with the engine's answer. -/
def ContextFailure.reason : ContextFailure → String
  | .noHandle => "engine returned no context handle"
  | .unreadable response => "unreadable engine response '" ++ Utf8.lossy response ++ "'"

/-- A failure of a client's call. Times are in milliseconds. -/
inductive ClientError where
  | transportClosed
  | foreign (error : EngineError)
  | decode (fault : Fault)
  | encode
  | invalidState (operation : Operation) (state : ClientState)
  | timeout (limit : Nat)
  | payloadTooLarge (length : Nat)
  | contextCreation (failure : ContextFailure)
  | load (error : LoadError)

namespace ClientError

/-- The message of a failure. -/
def message : ClientError → String
  | .transportClosed => "transport closed: client was destroyed while waiting for a response"
  | .foreign e => "engine error: " ++ e.shown
  | .decode .cut => "failed to decode response: the text ends too early"
  | .decode .malformed => "failed to decode response: the text does not fit"
  | .encode => "failed to encode request params"
  | .invalidState operation state =>
    "cannot " ++ operation.shown ++ " while client is " ++ state.shown
  | .timeout limit => "no final response within " ++ Text.duration limit
  | .payloadTooLarge length =>
    "payload of " ++ Text.decimal length ++ " bytes is too large for the engine"
  | .contextCreation failure => "failed to create client context: " ++ failure.reason
  | .load e => e.message

/-- The engine's code for a failure that the engine has reported. -/
def engineCode? : ClientError → Option Int64
  | .foreign e => some e.code
  | _ => none

end ClientError

end Switchboard
