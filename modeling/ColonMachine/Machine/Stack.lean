import ColonMachine.Machine.Dialogue

/-!
# The two stacks

Data stack operations are functions on the stack alone.  Each of them checks that it has its
operands before it changes anything, so one that faults leaves the stack as it was.  Arithmetic is
on 32-bit numbers and wraps; division goes towards zero.

The return stack has a limit, which is checked when a frame is pushed.
-/

namespace ColonMachine

namespace Stack

/-- Replaces the two top elements `b`, `a` by `f a b`. -/
def binary (f : Int32 → Int32 → Int32) : Stack → Except Fault Stack
  | b :: a :: rest => .ok (f a b :: rest)
  | _ => .error .stackUnderflow

/-- Replaces the two top elements `b`, `a` by `a / b`. -/
def divide : Stack → Except Fault Stack
  | b :: a :: rest => if b = 0 then .error .divisionByZero else .ok (a / b :: rest)
  | _ => .error .stackUnderflow

/-- Copies the top element. -/
def dup : Stack → Except Fault Stack
  | a :: rest => .ok (a :: a :: rest)
  | [] => .error .stackUnderflow

/-- Drops the top element. -/
def drop : Stack → Except Fault Stack
  | _ :: rest => .ok rest
  | [] => .error .stackUnderflow

/-- Exchanges the two top elements. -/
def swap : Stack → Except Fault Stack
  | b :: a :: rest => .ok (a :: b :: rest)
  | _ => .error .stackUnderflow

/-- The stack as `..` prints it, bottom first. -/
def shown (s : Stack) : Text :=
  utf8 "[ " ++ s.reverse.flatMap (fun n => Text.ofInt n.toInt ++ [Text.space]) ++ utf8 "]\n"

end Stack

namespace Machine

/-- Changes the engine. -/
def modifyEngine (f : Engine → Engine) : Act Unit := modify fun m => { m with engine := f m.engine }

/-- Applies an operation to the data stack. -/
def onStack (f : Stack → Except Fault Stack) : Act Unit := do
  match f (← get).engine.stack with
  | .ok stack => modifyEngine fun e => { e with stack }
  | .error what => raise what

/-- Pushes a number. -/
def push (n : Int32) : Act Unit := modifyEngine fun e => { e with stack := n :: e.stack }

/-- Faults if the data stack has fewer than `n` elements. -/
def need (n : Int) : Act Unit := do
  if ((← get).engine.stack.length : Int) < n then raise .stackUnderflow

/-- Pushes a frame on the return stack. -/
def pushFrame (frame : Frame) : Act Unit := do
  let e := (← get).engine
  if 0 < e.limit && e.limit ≤ e.frames.length then raise .returnOverflow
  else modifyEngine fun e => { e with frames := frame :: e.frames }

/-- Pops a frame off the return stack. -/
def popFrame : Act Frame := do
  match (← get).engine.frames with
  | [] => raise .returnUnderflow
  | frame :: frames =>
    modifyEngine fun e => { e with frames }
    return frame

end Machine

end ColonMachine
