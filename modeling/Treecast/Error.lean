import Treecast.Kind

/-!
# Failures

Each failure is a constructor that says what went wrong; `message` gives its wording.
-/

set_option autoImplicit false

namespace Treecast

/-- What the coordination store refuses. -/
inductive StoreError where
  | noNode (path : String)
  | nodeExists (path : String)
  | versionConflict (path : String) (expected actual : Int)
  | notEmpty (path : String)
  | invalidPath (path : String)
  | sessionClosed
  deriving DecidableEq, Repr

/-- The wording of a store failure. -/
def StoreError.message : StoreError → String
  | .noNode path => "No node at path " ++ path
  | .nodeExists path => "Node already exists at path " ++ path
  | .versionConflict path expected actual =>
    "Version conflict at " ++ path ++ " (expected: " ++ toString expected ++ ", actual: " ++
      toString actual ++ ")"
  | .notEmpty path => "Node " ++ path ++ " is not empty"
  | .invalidPath path => "Invalid path: " ++ path
  | .sessionClosed => "Coordination store session closed"

/-- What is wrong with a client's request. -/
inductive RequestFault where
  | malformedBody
  | invalidName (role : NameRole) (name : String)
  | unknownTree (text : String)
  | unknownFeed (text : String)
  | unknownMode (text : String)
  | nothingToWatch
  deriving DecidableEq, Repr

/-- The reason given to the client. -/
def RequestFault.reason : RequestFault → String
  | .malformedBody => "malformed request body"
  | .invalidName role name => "invalid " ++ role.word ++ " name '" ++ name ++ "'"
  | .unknownTree text => "unknown tree type '" ++ text ++ "'"
  | .unknownFeed text => "unknown subscription type '" ++ text ++ "'"
  | .unknownMode text => "unknown route mode '" ++ text ++ "'"
  | .nothingToWatch => "nothing to watch"

/-- Where a watcher stands in its life. -/
inductive WatcherPhase where
  | new
  | started
  | closed
  deriving DecidableEq, Repr

def WatcherPhase.word : WatcherPhase → String
  | .new => "new"
  | .started => "started"
  | .closed => "closed"

/-- A span of time in whole milliseconds, written in seconds from one second on, with the fraction
that is left, and in milliseconds below. -/
def spanText (millis : Nat) : String :=
  if millis = 0 then "0ns"
  else if millis < 1000 then toString millis ++ "ms"
  else
    let fraction := (Nat.toDigits 10 (1000 + millis % 1000)).drop 1
    let kept := (fraction.reverse.dropWhile (· = '0')).reverse
    let tail := if kept.isEmpty then [] else '.' :: kept
    toString (millis / 1000) ++ String.ofList tail ++ "s"

/-- Every way in which an operation of the service fails. -/
inductive Failure where
  | store (error : StoreError)
  | request (fault : RequestFault)
  | initTimeout (key : TreeKey) (millis : Nat)
  | holderClosed (key : TreeKey)
  | illegalState (phase : WatcherPhase)
  | fatal (reason : String)
  deriving DecidableEq, Repr

namespace Failure

def message : Failure → String
  | .store error => error.message
  | .request fault => "Invalid subscription: " ++ fault.reason
  | .initTimeout key millis =>
    "Holder " ++ key.display ++ " not initialized after " ++ spanText millis
  | .holderClosed key => "Holder " ++ key.display ++ " closed"
  | .illegalState phase => "Watcher is " ++ phase.word ++ ", operation not allowed"
  | .fatal reason => "Fatal error: " ++ reason

/-- Whether the client's request is to blame. -/
def isClientError : Failure → Bool
  | .request _ => true
  | _ => false

/-- Whether a tree did not load in time. -/
def isTimeout : Failure → Bool
  | .initTimeout _ _ => true
  | _ => false

end Failure

end Treecast
