import PhysicalHeap.Console

namespace PhysicalHeap

inductive SendError where
  | failed
  deriving DecidableEq

/-- What a console is told to send: a text, the pieces of a formatted text, or a character. In between,
the device may change how it behaves. -/
inductive Output where
  | text (s : String)
  | pieces (ss : List String)
  | char (x : Char)
  | device (busy : Nat) (idle : UInt32)
  deriving DecidableEq

namespace Console

def print (s : String) : EStateM SendError Console Unit := modify fun c => c.write s

def printChar (x : Char) : EStateM SendError Console Unit := modify fun c => c.writeChar x

def printAll : List String → EStateM SendError Console Unit
  | [] => return ()
  | s :: ss => do
    print s
    printAll ss

def perform : Output → EStateM SendError Console Unit
  | .text s => modify fun c => c.write s
  | .pieces ss => printAll ss
  | .char x => printChar x
  | .device busy idle => modify fun c => { c with device := c.device.configure busy idle }

def run : List Output → Console → List (Except SendError Unit) × Console
  | [], c => ([], c)
  | o :: os, c =>
    match (perform o).run c with
    | .ok _ c => let (xs, c) := run os c; (.ok () :: xs, c)
    | .error e c => let (xs, c) := run os c; (.error e :: xs, c)

end Console

end PhysicalHeap
