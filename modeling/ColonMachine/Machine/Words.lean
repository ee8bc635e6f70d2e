import ColonMachine.Code.Listing
import ColonMachine.Machine.Compiler

/-!
# What natives do

Each primitive as an action.  `.` and `..` show the data stack without changing it, `words` lists
the dictionary without the top level loop, and `see` reads a name and shows its definition.
-/

namespace ColonMachine

/-- The id of the top level loop. -/
def bootId : FuncId := 11

namespace Machine

/-- Prints the top of the data stack. -/
def printTop : Act Unit := do
  match (← get).engine.stack with
  | top :: _ => print (Text.ofInt top.toInt ++ [Text.newline])
  | [] => write (utf8 "<empty>\n")

/-- Prints the data stack. -/
def printStack : Act Unit := do write (← get).engine.stack.shown

/-- Stops the machine once the current instruction is done. -/
def exit : Act Unit := do
  note (utf8 "exit") fun m => utf8 "stack: " ++ m.stackText
  modifyEngine fun e => { e with running := false }

/-- Prints the names of all functions. -/
def words : Act Unit := do
  write ((← get).engine.dict.nameList bootId ++ [Text.newline])

/-- Shows the function called `name`, or says that there is none. -/
def seeName (name : Text) : Act Unit := do
  let dict := (← get).engine.dict
  match dict.find? name with
  | none => report (utf8 "Error: `" ++ name ++ utf8 "` not a function")
  | some id => write (dict.definition id ++ [Text.newline])

/-- Reads a name, and shows the function called so. -/
def see : Act Unit := do
  match ← nextWord with
  | none => report (utf8 "Error: see needs a function name")
  | some name => seeName name

/-- Runs a primitive. -/
def primitive : Primitive → Act Unit
  | .print => printTop
  | .printStack => printStack
  | .add => onStack (Stack.binary (· + ·))
  | .sub => onStack (Stack.binary (· - ·))
  | .mul => onStack (Stack.binary (· * ·))
  | .div => onStack Stack.divide
  | .dup => onStack Stack.dup
  | .drop => onStack Stack.drop
  | .clear => modifyEngine fun e => { e with stack := [] }
  | .swap => onStack Stack.swap
  | .exit => exit
  | .define => define
  | .endDefine => endDefine
  | .words => words
  | .see => see

/-- Runs a native. -/
def native : Native → Act Unit
  | .primitive p => primitive p
  | .noop => pure ()
  | .push n => push n
  | .fail text => raise (.custom text)
  | .panic payload => throw (.panic payload)
  | .abandon => throw .abandon

/-! ## How much input they use -/

theorem within_printTop : Within 0 printTop :=
  within_get.bind_zero fun m => by
    split
    · exact within_print _
    · exact within_write _

theorem within_seeName (name : Text) : Within 1 (seeName name) :=
  within_get.bind_zero fun m => by
    dsimp only
    split
    · exact within_report _
    · exact (within_write _).mono (by omega)

/-- What a word, or the end of a line, leaves room for. -/
theorem within_nextWord_bind {α : Type} {next : Option Text → Act α} (hnone : Within 1 (next none))
    (hsome : ∀ word, Within 2 (next (some word))) : Within 0 (nextWord >>= next) := by
  intro m a m' hok
  change EStateM.bind nextWord next m = _ at hok
  unfold EStateM.bind at hok
  split at hok
  · next word m1 hword =>
    have hpending := pending_of_nextWord hword
    cases word with
    | none =>
      have := hnone m1 a m' hok
      simp at hpending
      omega
    | some word =>
      have := hsome word m1 a m' hok
      simp at hpending
      omega
  · cases hok

theorem within_see : Within 0 see :=
  within_nextWord_bind (within_report _) fun name => (within_seeName name).mono (by omega)

theorem within_primitive (p : Primitive) : Within 0 (primitive p) := by
  cases p with
  | print => exact within_printTop
  | printStack => exact within_get.bind_zero fun _ => within_write _
  | clear => exact within_modifyEngine fun e => { e with stack := [] }
  | exit => exact (within_note _ _).bind_zero fun _ => within_modifyEngine _
  | define => exact within_define
  | endDefine => exact within_endDefine
  | words => exact within_get.bind_zero fun _ => within_write _
  | see => exact within_see
  | _ => exact within_onStack _

theorem within_native (n : Native) : Within 0 (native n) := by
  cases n with
  | primitive p => exact within_primitive p
  | noop => exact within_pure _
  | push n => exact within_push n
  | fail text => exact (broken_raise _).within 0
  | panic payload => exact (broken_throw _).within 0
  | abandon => exact (broken_throw _).within 0

end Machine

end ColonMachine
