/-!
# The console

A console gives lines of input and takes texts. It is scripted: the input is known beforehand, and
so is the write or the read at which the device breaks down, if it does.
-/

namespace ClassicBasic

/-- What has happened on a console. -/
inductive Event where
  | wrote (text : String)
  | read (line : String)
deriving DecidableEq, Repr

structure Console where
  /-- The lines still to be read. -/
  input : List String := []
  /-- What has happened, the latest first. -/
  log : List Event := []
  /-- How many more writes succeed; no bound means all do. -/
  writesLeft : Option Nat := none
  /-- How many more reads succeed; no bound means all do. -/
  readsLeft : Option Nat := none
deriving Repr, Inhabited

namespace Console

/-- What a device that breaks down reports. -/
def failure : String := "device failed"

/-- The text that an event put out. -/
def textOf : Event → String
  | .wrote text => text
  | .read _ => ""

/-- All that was written. -/
def output (c : Console) : String := String.join (c.log.reverse.map textOf)

/-- The console with one more line of input. -/
def feed (c : Console) (line : String) : Console := { c with input := c.input ++ [line] }

/-- One use less of a device; nothing if it breaks down. -/
def use? : Option Nat → Option (Option Nat)
  | none => some none
  | some 0 => none
  | some (n + 1) => some (some n)

/-- The console after writing `s`; nothing if the device breaks down. -/
def write? (c : Console) (s : String) : Option Console :=
  (use? c.writesLeft).map fun left => { c with log := .wrote s :: c.log, writesLeft := left }

/-- The next line, if there is one, and the console after it; nothing if the device breaks down. -/
def read? (c : Console) : Option (Option String × Console) :=
  (use? c.readsLeft).map fun left =>
    match c.input with
    | [] => (none, { c with readsLeft := left })
    | line :: input => (some line, { c with input, log := .read line :: c.log, readsLeft := left })

end Console

end ClassicBasic
