import ColonMachine.Proofs.Positions
import ColonMachine.Proofs.Stepping

/-!
# Instructions by position

`stepAt` executes an instruction as `Machine.step` does, but makes every access to the data stack,
the return stack, the code, the dictionary and the words of the line by position.  An action of this
kind is **risky**: it can do all that an action can, and it can also crash.

`sure_step` says that it never does, whatever the machine is like, and that it comes to the same
result.  The proof goes along the way the actions are put together, with one lemma for each of them.
-/

namespace ColonMachine

/-- An action that may also crash, which is the interrupt `none`. -/
abbrev Risky (α : Type) := EStateM (Option Interrupt) Machine α

namespace Machine

variable {α β : Type}

/-- An action that accesses nothing by position. -/
def safely (act : Act α) : Risky α := fun m =>
  match act m with
  | .ok a m => .ok a m
  | .error i m => .error (some i) m

/-- Gives what was accessed, or crashes. -/
def access : Option α → Risky α
  | some a => pure a
  | none => throw none

/-- The risky action does not crash, and does what `act` does. -/
def Sure (risky : Risky α) (act : Act α) : Prop := ∀ m, risky m = safely act m

section Safely

variable {act act' : Act α} {m m' : Machine}

lemma safely_of_ok {a : α} (h : act m = .ok a m') : safely act m = .ok a m' := by rw [safely, h]

lemma safely_of_error {i : Interrupt} (h : act m = .error i m') :
    safely act m = .error (some i) m' := by
  rw [safely, h]

lemma safely_congr (h : act m = act' m') :
    safely act m = safely act' m' := by rw [safely, safely, h]

end Safely

lemma sure_safely (act : Act α) : Sure (safely act) act := fun _ => rfl

lemma sure_pure (a : α) : Sure (pure a) (pure a) := fun _ => rfl

namespace Sure

variable {risky : Risky α} {act : Act α} {m m' : Machine}

lemma bind {next : α → Risky β} {next' : α → Act β} (h : Sure risky act)
    (hnext : ∀ a, Sure (next a) (next' a)) : Sure (risky >>= next) (act >>= next') := by
  intro m
  rw [bind_apply, h m, safely, safely, bind_apply]
  cases act m with
  | ok a m' => exact hnext a m'
  | error i m' => rfl

lemma get {next : Machine → Risky α} {next' : Machine → Act α} (h : ∀ m, Sure (next m) (next' m)) :
    Sure (get >>= next) (get >>= next') := fun m => h m m

/-- What is accessed is there. -/
lemma access {x : Option β} {b : β} {next : β → Risky α} (hx : x = some b) (h : Sure (next b) act) :
    Sure (Machine.access x >>= next) act := by
  rw [hx]
  exact h

lemma ok (h : Sure risky act) {a : α} (hact : act m = .ok a m') : risky m = .ok a m' :=
  (h m).trans (safely_of_ok hact)

lemma error (h : Sure risky act) {i : Interrupt} (hact : act m = .error i m') :
    risky m = .error (some i) m' :=
  (h m).trans (safely_of_error hact)

lemma of_ok {a : α} (h : Sure risky act) (hrisky : risky m = .ok a m') : act m = .ok a m' := by
  cases hact : act m with
  | ok b m1 =>
      rw [h.ok hact] at hrisky
      cases hrisky
      rfl
  | error i m1 =>
      rw [h.error hact] at hrisky
      cases hrisky

end Sure

/-! ## Primitives -/

def onStackAt (f : Stack → Option (Except Fault Stack)) : Risky Unit := do
  match ← access (f (← get).engine.stack) with
  | .ok stack => safely (modifyEngine fun e => { e with stack })
  | .error what => safely (raise what)

lemma sure_onStack {f : Stack → Option (Except Fault Stack)} {g : Stack → Except Fault Stack}
    (h : ∀ s, f s = some (g s)) : Sure (onStackAt f) (onStack g) := by
  refine .get fun m => .access (h _) ?_
  cases g m.engine.stack <;> exact sure_safely _

def printTopAt : Risky Unit := do
  match ← access (Stack.topAt (← get).engine.stack) with
  | some top => safely (print (Text.ofInt top.toInt ++ [Text.newline]))
  | none => safely (write (utf8 "<empty>\n"))

lemma sure_printTop : Sure printTopAt printTop := by
  refine .get fun m => .access (Stack.topAt_eq _) ?_
  cases m.engine.stack <;> exact sure_safely _

def wordsAt : Risky Unit := do
  let names ← access ((← get).engine.dict.nameListAt bootId)
  safely (write (names ++ [Text.newline]))

lemma sure_words : Sure wordsAt words :=
  .get fun _ => .access (Dictionary.nameListAt_eq _ _) (sure_safely _)

def pullAt : Risky (Except Failure (Option Text)) := do
  let m ← get
  let (word, input, console) ← access (m.input.nextWordAt (Console.hooks m.engine.mode) m.console)
  set { m with input, console }
  return word

lemma sure_pull : Sure pullAt pull := by
  intro m
  change (access (m.input.nextWordAt (Console.hooks m.engine.mode) m.console) >>= _) m = _
  rw [Source.nextWordAt_eq]
  rfl

def nextWordAt : Risky (Option Text) := do safely (accept (← pullAt))

lemma sure_nextWord : Sure nextWordAt nextWord := sure_pull.bind fun _ => sure_safely _

def nextNameAt (m : Machine) : EStateM.Result (Option Interrupt) Machine Text :=
  match _hword : nextWordAt m with
  | .ok none m' => nextNameAt m'
  | .ok (some name) m' => .ok name m'
  | .error i m' => .error i m'
termination_by m.pending
decreasing_by
  have := pending_of_nextWord (sure_nextWord.of_ok _hword)
  simp at this
  omega

/-- The induction is over the lines without a word. -/
lemma sure_nextName : Sure nextNameAt nextName := by
  intro m
  induction m using nextName.induct with
  | case1 m m1 hword ih =>
      rw [nextNameAt, sure_nextWord.ok hword]
      exact ih.trans (safely_congr (nextName_of_line hword).symm)
  | case2 m name m1 hword =>
      rw [nextNameAt, sure_nextWord.ok hword]
      exact (safely_of_ok (nextName_of_word hword)).symm
  | case3 m i m1 hword =>
      rw [nextNameAt, sure_nextWord.error hword]
      exact (safely_of_error (nextName_of_error hword)).symm

def seeNameAt (name : Text) : Risky Unit := do
  let dict := (← get).engine.dict
  match ← access (dict.findAt name) with
  | none => safely (report (utf8 "Error: `" ++ name ++ utf8 "` not a function"))
  | some id =>
    let definition ← access (dict.definitionAt id)
    safely (write (definition ++ [Text.newline]))

lemma sure_seeName (name : Text) : Sure (seeNameAt name) (seeName name) := by
  refine .get fun m => .access (Dictionary.findAt_eq _ _) ?_
  dsimp only
  cases m.engine.dict.find? name with
  | none => exact sure_safely _
  | some id => exact .access (Dictionary.definitionAt_eq _ _) (sure_safely _)

def seeAt : Risky Unit := do
  match ← nextWordAt with
  | none => safely (report (utf8 "Error: see needs a function name"))
  | some name => seeNameAt name

lemma sure_see : Sure seeAt see := by
  refine sure_nextWord.bind fun word => ?_
  cases word with
  | none => exact sure_safely _
  | some name => exact sure_seeName name

def defineAt : Risky Unit := do
  safely (modifyEngine fun e => { e with mode := .compile })
  let name ← nextNameAt
  match ← access ((← get).engine.dict.findAt name) with
  | some _ => safely do
    modifyEngine fun e => { e with mode := .execute, defining := none }
    report (utf8 "Function already defined: " ++ name)
  | none => safely do
    modifyEngine fun e => { e with defining := some e.dict.nextId, dict := e.dict.add name }
    note (utf8 "define") fun m =>
      name ++ utf8 " #" ++ Text.ofInt (m.engine.defining.getD 0)

lemma sure_define : Sure defineAt define := by
  refine (sure_safely _).bind fun _ => sure_nextName.bind fun name => ?_
  refine .get fun m => .access (Dictionary.findAt_eq _ _) ?_
  cases m.engine.dict.find? name <;> exact sure_safely _

def endDefineAt : Risky Unit := do
  safely (modifyEngine fun e => { e with mode := .execute })
  match ← access (← get).engine.openedAt with
  | none => pure ()
  | some (target, f) => safely do
    emit target [Opcode.ret.code]
    note (utf8 "define") fun _ =>
      f.name ++ utf8 " done " ++ Code.listText (f.emit [Opcode.ret.code]).code
  safely (modifyEngine fun e => { e with defining := none })

lemma sure_endDefine : Sure endDefineAt endDefine := by
  refine (sure_safely _).bind fun _ => .get fun m => .access (Engine.openedAt_eq _) ?_
  cases m.engine.opened? with
  | none => exact sure_safely _
  | some opened => exact (sure_safely _).bind fun _ => sure_safely _

def primitiveAt : Primitive → Risky Unit
  | .print => printTopAt
  | .add => onStackAt (Stack.binaryAt (· + ·))
  | .sub => onStackAt (Stack.binaryAt (· - ·))
  | .mul => onStackAt (Stack.binaryAt (· * ·))
  | .div => onStackAt Stack.divideAt
  | .dup => onStackAt Stack.dupAt
  | .drop => onStackAt Stack.dropAt
  | .swap => onStackAt Stack.swapAt
  | .define => defineAt
  | .endDefine => endDefineAt
  | .words => wordsAt
  | .see => seeAt
  | p => safely (primitive p)

lemma sure_primitive (p : Primitive) : Sure (primitiveAt p) (primitive p) := by
  cases p with
  | print => exact sure_printTop
  | printStack => exact sure_safely (primitive .printStack)
  | add => exact sure_onStack (Stack.binaryAt_eq · _)
  | sub => exact sure_onStack (Stack.binaryAt_eq · _)
  | mul => exact sure_onStack (Stack.binaryAt_eq · _)
  | div => exact sure_onStack Stack.divideAt_eq
  | dup => exact sure_onStack Stack.dupAt_eq
  | drop => exact sure_onStack Stack.dropAt_eq
  | clear => exact sure_safely (primitive .clear)
  | swap => exact sure_onStack Stack.swapAt_eq
  | exit => exact sure_safely (primitive .exit)
  | define => exact sure_define
  | endDefine => exact sure_endDefine
  | words => exact sure_words
  | see => exact sure_see

def nativeAt : Native → Risky Unit
  | .primitive p => primitiveAt p
  | n => safely (native n)

lemma sure_native (n : Native) : Sure (nativeAt n) (native n) := by
  cases n with
  | primitive p => exact sure_primitive p
  | _ => exact fun _ => rfl

/-! ## Calls and words -/

def callAt (id : FuncId) : Risky Unit := do
  let e := (← get).engine
  match ← access (checked e.dict.functions id) with
  | none => safely (raise (.undefinedCall id))
  | some f =>
    if f.isNative then
      match f.native with
      | some n => nativeAt n
      | none => pure ()
    else safely do
      pushFrame ⟨e.fn, e.pc⟩
      note (utf8 "call") fun _ => f.name
      modifyEngine fun e => { e with fn := id, pc := -1 }

lemma sure_call (id : FuncId) : Sure (callAt id) (call id) := by
  refine .get fun m => .access (get?_at _ _) ?_
  dsimp only
  cases m.engine.dict.get? id with
  | none => exact sure_safely _
  | some f =>
      dsimp only
      split_ifs
      · cases f.native with
        | none => exact sure_pure ()
        | some n => exact sure_native n
      · exact sure_safely _

def popAt : Risky Frame := do
  match ← access (popFrameAt (← get).engine.frames) with
  | .error what => safely (raise what)
  | .ok (frame, frames) => safely do
    modifyEngine fun e => { e with frames }
    return frame

lemma sure_popFrame : Sure popAt popFrame := by
  refine .get fun m => .access (popFrameAt_eq _) ?_
  cases m.engine.frames <;> exact sure_safely _

def retAt : Risky Unit := do
  let frame ← popAt
  safely (modifyEngine fun e => { e with fn := frame.fn, pc := frame.pc })
  match ← access (checked (← get).engine.dict.functions frame.fn) with
  | some f => safely (note (utf8 "return") fun _ => f.name)
  | none => pure ()

lemma sure_ret : Sure retAt ret := by
  refine sure_popFrame.bind fun frame => (sure_safely _).bind fun _ => ?_
  refine .get fun m => .access (get?_at _ _) ?_
  cases m.engine.dict.get? frame.fn with
  | none => exact sure_pure ()
  | some f => exact sure_safely _

def compileCallAt (word : Text) (id : FuncId) : Risky Unit := do
  match ← access (← get).engine.openedAt with
  | none => safely (raise .notDefining)
  | some (target, f) => safely do
    if maxCallId < id then
      report (utf8 "Error: `" ++ word ++ utf8 "` cannot be compiled, function id " ++
        Text.ofInt id ++ utf8 " out of range")
    else
      note (utf8 "compile") fun _ => f.name ++ utf8 " call " ++ word
      emit target [Opcode.call.code, Code.ofCallee id]

lemma sure_compileCall (word : Text) (id : FuncId) :
    Sure (compileCallAt word id) (compileCall word id) := by
  refine .get fun m => .access (Engine.openedAt_eq _) ?_
  cases m.engine.opened? <;> exact sure_safely _

def compileLiteralAt (n : Int32) : Risky Unit := do
  match ← access (← get).engine.openedAt with
  | none => safely (raise .notDefining)
  | some (target, f) => safely do
    let literal := n.toInt8
    note (utf8 "compile") fun _ =>
      if literal.toInt32 = n then f.name ++ utf8 " pushnum " ++ Text.ofInt literal.toInt
      else f.name ++ utf8 " truncating literal " ++ Text.ofInt n.toInt ++ utf8 " to " ++
        Text.ofInt literal.toInt
    emit target [Opcode.push.code, literal]

lemma sure_compileLiteral (n : Int32) : Sure (compileLiteralAt n) (compileLiteral n) := by
  refine .get fun m => .access (Engine.openedAt_eq _) ?_
  cases m.engine.opened? <;> exact sure_safely _

def dispatchFunctionAt (word : Text) (id : FuncId) (f : Function) : Risky Bool := do
  if f.immediate then
    safely (note (utf8 "run") fun _ => utf8 "immediate " ++ word)
    callAt id
    return f.isNative
  else
    match (← get).engine.mode with
    | .execute =>
      callAt id
      return f.isNative
    | .compile =>
      compileCallAt word id
      return true

lemma sure_dispatchFunction (word : Text) (id : FuncId) (f : Function) :
    Sure (dispatchFunctionAt word id f) (dispatchFunction word id f) := by
  rw [dispatchFunctionAt, dispatchFunction]
  split_ifs
  · exact (sure_safely _).bind fun _ => (sure_call id).bind fun _ => sure_pure _
  · refine .get fun m => ?_
    cases m.engine.mode with
    | execute => exact (sure_call id).bind fun _ => sure_pure _
    | compile => exact (sure_compileCall word id).bind fun _ => sure_pure _

def dispatchNumberAt (word : Text) : Risky Bool := do
  match word.readCell with
  | .ok n =>
    match (← get).engine.mode with
    | .execute => safely (push n)
    | .compile => compileLiteralAt n
    return true
  | .error _ => safely (dispatchNumber word)

lemma sure_dispatchNumber (word : Text) : Sure (dispatchNumberAt word) (dispatchNumber word) := by
  rw [dispatchNumberAt]
  cases hcell : word.readCell with
  | error why => exact sure_safely _
  | ok n =>
      rw [dispatchNumber, hcell]
      refine .get fun m => ?_
      cases m.engine.mode with
      | execute => exact (sure_safely _).bind fun _ => sure_pure _
      | compile => exact (sure_compileLiteral n).bind fun _ => sure_pure _

def dispatchAt (word : Text) : Risky Bool := do
  match ← access ((← get).engine.dict.lookupAt word) with
  | some (id, f) => dispatchFunctionAt word id f
  | none => dispatchNumberAt word

lemma sure_dispatch (word : Text) : Sure (dispatchAt word) (dispatch word) := by
  refine .get fun m => .access (Dictionary.lookupAt_eq _ _) ?_
  rcases lookup? m.engine.dict word with _ | ⟨id, f⟩
  · exact sure_dispatchNumber word
  · exact sure_dispatchFunction word id f

def readAt : Risky Bool := do
  match ← nextWordAt with
  | none => return false
  | some word => dispatchAt word

lemma sure_read : Sure readAt read := by
  refine sure_nextWord.bind fun word => ?_
  cases word with
  | none => exact sure_pure _
  | some word => exact sure_dispatch word

def promptAt (m : Machine) : EStateM.Result (Option Interrupt) Machine Unit :=
  if m.engine.running then
    match _hread : readAt m with
    | .ok true m' => promptAt m'
    | .ok false m' => .ok () m'
    | .error i m' => .error i m'
  else .ok () m
termination_by m.pending
decreasing_by exact pending_of_read (sure_read.of_ok _hread)

/-- The induction is over the words read. -/
lemma sure_prompt : Sure promptAt prompt := by
  intro m
  induction m using prompt.induct with
  | case1 m hrunning m1 hread ih =>
      rw [promptAt, if_pos hrunning, sure_read.ok hread]
      exact ih.trans (safely_congr (prompt_again hrunning hread).symm)
  | case2 m hrunning m1 hread =>
      rw [promptAt, if_pos hrunning, sure_read.ok hread]
      exact (safely_of_ok (prompt_ended hrunning hread)).symm
  | case3 m hrunning i m1 hread =>
      rw [promptAt, if_pos hrunning, sure_read.error hread]
      exact (safely_of_error (prompt_broken hrunning hread)).symm
  | case4 m hrunning =>
      rw [promptAt, if_neg hrunning]
      exact (safely_of_ok (prompt_stopped hrunning)).symm

/-! ## Instructions -/

def fetchAt : Risky Code := do
  let e := (← get).engine
  let position := e.pc + 1
  match ← access (e.byteAt position) with
  | some code => safely do
    modifyEngine fun e => { e with pc := position }
    return code
  | none => safely do
    modifyEngine fun e => { e with pc := wrapped position }
    raise (.outOfBounds e.fn (wrapped position))

lemma sure_fetch : Sure fetchAt fetch := by
  refine .get fun m => .access (Engine.byteAt_eq _ _) ?_
  dsimp only
  cases (m.engine.dict.get? m.engine.fn).bind (codeAt? · (m.engine.pc + 1)) <;> exact sure_safely _

def attemptAt (risky : Risky α) : Risky (Except Fault α) := fun m =>
  match risky m with
  | .ok a m => .ok (.ok a) m
  | .error (some (.fault what)) m => .ok (.error what) m
  | .error i m => .error i m

lemma Sure.attempt {risky : Risky α} {act : Act α} (h : Sure risky act) :
    Sure (attemptAt risky) (attempt act) := by
  intro m
  rw [attemptAt, h m, safely, safely, ColonMachine.attempt]
  rcases act m with ⟨a, m1⟩ | ⟨_ | _ | _ | _, m1⟩ <;> rfl

def readQuietlyAt : Risky Unit := do
  let prompting := (← get).input.prompting
  safely (modify fun m => { m with input := { m.input with prompting := false } })
  let outcome ← attemptAt readAt
  safely (modify fun m => { m with input := { m.input with prompting } })
  match outcome with
  | .ok _ => pure ()
  | .error what => safely (raise what)

lemma sure_readQuietly : Sure readQuietlyAt readQuietly := by
  refine .get fun m => (sure_safely _).bind fun _ => sure_read.attempt.bind fun outcome => ?_
  refine (sure_safely _).bind fun _ => ?_
  cases outcome with
  | ok more => exact sure_pure ()
  | error what => exact sure_safely _

def executeAt : Opcode → Risky Unit
  | .call => do callAt (Code.callee (← fetchAt))
  | .jump => do
    let offset ← fetchAt
    safely (modifyEngine fun e => { e with pc := e.pc + offset.toInt - 1 })
  | .prompt => promptAt
  | .push => do safely (push (← fetchAt).toInt32)
  | .read => readQuietlyAt
  | .ret => retAt

lemma sure_execute (op : Opcode) : Sure (executeAt op) (execute op) := by
  cases op with
  | call => exact sure_fetch.bind fun _ => sure_call _
  | jump => exact sure_fetch.bind fun _ => sure_safely _
  | prompt => exact sure_prompt
  | push => exact sure_fetch.bind fun _ => sure_safely _
  | read => exact sure_readQuietly
  | ret => exact sure_ret

/-- Notes the instruction that is executed, with the name of the function that it is in. -/
def noteAt (code : Code) : Risky Unit := do
  let name ← access ((← get).engine.dict.nameOfAt (← get).engine.fn)
  safely (note (utf8 "exec") fun m =>
    name ++ utf8 "@" ++ Text.ofInt m.engine.pc ++ utf8 " " ++
      code.name ++ utf8 " -- r:" ++ Text.ofNat m.engine.frames.length ++ utf8 " s:" ++ m.stackText)

def stepAt : Risky Unit := do
  let code ← fetchAt
  noteAt code
  match Opcode.ofCode? code with
  | some op => executeAt op
  | none => safely do raise (.badOpcode code (← get).engine.pc)

/-- **Nothing is accessed out of range**, in any machine: an instruction by position does not crash,
and does what the instruction does. -/
lemma sure_step : Sure stepAt step := by
  refine sure_fetch.bind fun code => ?_
  refine Sure.bind (fun m => ?_) fun _ => ?_
  · change (access (m.engine.dict.nameOfAt m.engine.fn) >>= _) m = _
    rw [Dictionary.nameOfAt_eq]
    rfl
  · cases Opcode.ofCode? code with
    | none => exact sure_safely _
    | some op => exact sure_execute op

end Machine

end ColonMachine
