import GuestExec.Native.Host
import GuestExec.Native.Session

/-!
# Signal dispositions

Each signal of the process has a disposition. Installing a handler returns the
action it replaces, which can be restored, or called from inside the new handler
to pass on a signal that is not for it (`forward`).
-/

namespace GuestExec.Native

/-- A signal handler, by what it does. -/
inductive Handler where
  /-- Counts its calls. -/
  | counting
  /-- Counts its calls and passes the signal to the action that it replaced. -/
  | chaining
  /-- Counts its calls; takes the signal number alone. -/
  | plain
  /-- Counts its calls and tries to install a signal stack. -/
  | stackProbe
  /-- The process's own last resort, which puts the signal back to its default. -/
  | lastResort
deriving DecidableEq, Repr

inductive Disposition where
  | default
  | ignore
  | handler (h : Handler)
deriving DecidableEq, Repr, Inhabited

/-- An action that an installation replaced. -/
structure SavedAction where
  signal : Int
  disposition : Disposition
deriving DecidableEq, Repr

namespace SavedAction

/-- No handler was replaced. -/
def isDefault (a : SavedAction) : Bool :=
  match a.disposition with
  | .handler _ => false
  | _ => true

/-- The handler to call instead, if there was one. -/
def forward? (a : SavedAction) : Option Handler :=
  match a.disposition with
  | .handler h => some h
  | _ => none

end SavedAction

/-- The process may handle the signal: it exists, can be caught, and is not the thread library's. -/
def isCatchable (signal : Int) : Bool :=
  decide (1 ≤ signal) && decide (signal ≤ 64) && !([9, 19, 32, 33] : List Int).contains signal

/-- The default is to do nothing: a child's change of state, continuation, urgent data, a window's
change of size. -/
def ignoredByDefault (signal : Int) : Bool := ([17, 18, 23, 28] : List Int).contains signal

/-- The dispositions of a process, and what its handlers did. -/
structure SignalState where
  /-- Dispositions other than the default, the latest first. -/
  dispositions : List (Int × Disposition) := [(7, .handler .lastResort), (11, .handler .lastResort)]
  counted : Nat := 0
  chained : Nat := 0
  plain : Nat := 0
  /-- Signals that a chaining handler could not pass on. -/
  notForwarded : Nat := 0
  /-- The action that the last chaining handler replaced. -/
  chainTo : Option SavedAction := none
  /-- Handlers run on a signal stack. -/
  hasStack : Bool := false
  /-- What the last probe of the stack got. -/
  probed : Option PlatformError := none
deriving Inhabited

namespace SignalState

def get (s : SignalState) (signal : Int) : Disposition :=
  (s.dispositions.lookup signal).getD .default

def set (s : SignalState) (signal : Int) (d : Disposition) : SignalState :=
  { s with dispositions := (signal, d) :: s.dispositions }

/-- Installs a handler. -/
def install (s : SignalState) (signal : Int) (h : Handler) :
    Except PlatformError (SavedAction × SignalState) :=
  if isCatchable signal then
    let saved := { signal, disposition := s.get signal }
    let s := if h = .chaining then { s with chainTo := some saved } else s
    .ok (saved, s.set signal (.handler h))
  else .error (.signalInstall signal Errno.invalidArgument.number)

def restore (s : SignalState) (a : SavedAction) : SignalState := s.set a.signal a.disposition

/-- Size of the stack that a probe asks for. -/
def probeSize : Nat := 65536

/-- A handler that passes nothing on runs. -/
def runLeaf (s : SignalState) (signal : Int) : Handler → SignalState
  | .counting => { s with counted := s.counted + 1 }
  | .plain => { s with plain := s.plain + 1 }
  | .chaining => { s with chained := s.chained + 1 }
  | .lastResort => s.set signal .default
  | .stackProbe =>
    { s with
      counted := s.counted + 1
      probed := match SignalStack.install probeSize 0 s.hasStack with
        | .ok _ => none
        | .error e => some e }

/-- A handler runs. -/
def run (s : SignalState) (signal : Int) (h : Handler) : SignalState :=
  let s := s.runLeaf signal h
  if h = .chaining then
    match s.chainTo with
    | none => s
    | some saved =>
      match saved.forward? with
      | some h => s.runLeaf saved.signal h
      | none => { s with notForwarded := s.notForwarded + 1 }
  else s

/-- Delivers a signal; nothing if that would end the process. -/
def raise (s : SignalState) (signal : Int) : Option SignalState :=
  match s.get signal with
  | .handler h => some (s.run signal h)
  | .ignore => some s
  | .default => if ignoredByDefault signal then some s else none

/-- A native backend's handler gets a signal that is not the guest's: it calls the action it
replaced, and without one puts a fault back to its default, so that the fault ends the process. -/
def stray (s : SignalState) (signal : HostSignal) (replaced : SavedAction) : SignalState :=
  match replaced.forward? with
  | some h => s.run signal.number h
  | none => if signal.isFault then s.set signal.number .default else s

/-- Whether a native backend's handler, installed at the start of the process, leaves its signal
handled when it gets one while no guest runs. -/
def staysAfterStray (signal : HostSignal) : Bool :=
  let start : SignalState := {}
  let replaced := { signal := signal.number, disposition := start.get signal.number }
  let s := (start.set signal.number (.handler .counting)).stray signal replaced
  s.get signal.number != .default

end SignalState

end GuestExec.Native
