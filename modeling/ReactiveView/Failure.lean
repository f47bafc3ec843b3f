/-!
# Failures

Why an operation did not finish.  Callbacks, listeners and methods may fail in any way, so a cause
can be another failure, to any depth; every kind of failure has one wording.
-/

namespace ReactiveView

/-- The handle of an element of a document; handles count from 1. -/
structure ElementId where
  number : Nat
  deriving DecidableEq, Repr, Inhabited

/-- How an element is named in messages. -/
def ElementId.display (e : ElementId) : String := "element#" ++ e.number.repr

mutual

/-- Any failure that client code can see or raise. -/
inductive Failure where
  -- An error of the client's own, with the label of its kind.
  | client (label message : String)
  | reactive (error : ReactiveError)
  | document (error : DocumentError)
  | engine (error : EngineError)
  deriving DecidableEq, Repr

/-- A failure of the observable data. -/
inductive ReactiveError where
  -- Watcher number `requested` wanted to collect while number `active` was collecting.
  | collecting (active requested : Nat)
  -- The callback of a watcher failed.
  | callback (watcher : Nat) (property : String) (cause : Failure)
  -- Something else than an object was to be observed.
  | notAnObject (found : String)
  deriving DecidableEq, Repr

/-- A failure of the document. -/
inductive DocumentError where
  | unknownElement (element : ElementId)
  -- The current markup of `root` shows no such id.
  | notRendered (root : ElementId) (id : String)
  -- A listener for events of this type failed.
  | listener (eventType : String) (cause : Failure)
  deriving DecidableEq, Repr

/-- A failure of a mounted view. -/
inductive EngineError where
  | rootNotFound (id : String)
  | invalidData (found : String)
  | invalidConfig (message : String)
  | unknownMethod (name : String)
  -- A method failed.
  | method (name : String) (cause : Failure)
  | reactive (error : ReactiveError)
  | document (error : DocumentError)
  deriving DecidableEq, Repr

end

/-! ## Wording -/

/-- How a watcher is named in messages. -/
def watcherName (number : Nat) : String := "w" ++ number.repr

mutual

def Failure.message : Failure → String
  | .client _ message => message
  | .reactive error => error.message
  | .document error => error.message
  | .engine error => error.message

def ReactiveError.message : ReactiveError → String
  | .collecting active requested =>
    "watcher " ++ watcherName requested ++ " cannot start collecting while watcher " ++
      watcherName active ++ " is collecting"
  | .callback watcher property cause =>
    "callback of watcher " ++ watcherName watcher ++ " on `" ++ property ++ "` failed: " ++
      cause.message
  | .notAnObject found => "observable data must be an object, got " ++ found

def DocumentError.message : DocumentError → String
  | .unknownElement element => "unknown element handle " ++ element.display
  | .notRendered root id =>
    "no element with id `" ++ id ++ "` is rendered under " ++ root.display
  | .listener eventType cause =>
    "listener for `" ++ eventType ++ "` failed: " ++ cause.message

def EngineError.message : EngineError → String
  | .rootNotFound id => "root element not found: #" ++ id
  | .invalidData found => "view-model data must be an object, got " ++ found
  | .invalidConfig message => "invalid configuration: " ++ message
  | .unknownMethod name => "unknown method `" ++ name ++ "`"
  | .method name cause => "method `" ++ name ++ "` failed: " ++ cause.message
  | .reactive error => error.message
  | .document error => error.message

end

end ReactiveView
