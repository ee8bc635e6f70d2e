import ColonMachine.Machine.Progress

/-!
# Definitions

While a definition is open, words are compiled into it: a function as a call, a number as a
literal.  A call names its function by one unsigned byte, so only the first 256 functions can be
compiled; a literal has one signed byte, so wider numbers lose their high bits.

`define` reads a name, over as many lines as it takes, and opens a definition under it;
`endDefine` closes it with a return.
-/

namespace ColonMachine

/-- The open definition: its id and its function. -/
def Engine.opened? (e : Engine) : Option (FuncId × Function) := do
  let id ← e.defining
  let f ← e.dict.get? id
  return (id, f)

/-- The largest id that a compiled call can name. -/
def maxCallId : FuncId := 255

namespace Machine

/-- Adds code to a function. -/
def emit (id : FuncId) (code : List Code) : Act Unit :=
  modifyEngine fun e => { e with dict := e.dict.emit id code }

/-- Compiles a call of the function `id`, which was read as `word`. -/
def compileCall (word : Text) (id : FuncId) : Act Unit := do
  match (← get).engine.opened? with
  | none => raise .notDefining
  | some (target, f) =>
    if maxCallId < id then
      report (utf8 "Error: `" ++ word ++ utf8 "` cannot be compiled, function id " ++
        Text.ofInt id ++ utf8 " out of range")
    else
      note (utf8 "compile") fun _ => f.name ++ utf8 " call " ++ word
      emit target [Opcode.call.code, Code.ofCallee id]

/-- Compiles a literal. -/
def compileLiteral (n : Int32) : Act Unit := do
  match (← get).engine.opened? with
  | none => raise .notDefining
  | some (target, f) =>
    let literal := n.toInt8
    note (utf8 "compile") fun _ =>
      if literal.toInt32 = n then f.name ++ utf8 " pushnum " ++ Text.ofInt literal.toInt
      else f.name ++ utf8 " truncating literal " ++ Text.ofInt n.toInt ++ utf8 " to " ++
        Text.ofInt literal.toInt
    emit target [Opcode.push.code, literal]

/-- Reads a name, passing over the ends of lines. -/
def nextName (m : Machine) : Result Text :=
  match _hword : nextWord m with
  | .ok none m' => nextName m'
  | .ok (some name) m' => .ok name m'
  | .error interrupt m' => .error interrupt m'
termination_by m.pending
decreasing_by
  have := pending_of_nextWord _hword
  simp at this
  omega

/-- Opens a definition under the name that is read next, which must be new. -/
def define : Act Unit := do
  modifyEngine fun e => { e with mode := .compile }
  let name ← nextName
  match (← get).engine.dict.find? name with
  | some _ =>
    modifyEngine fun e => { e with mode := .execute, defining := none }
    report (utf8 "Function already defined: " ++ name)
  | none =>
    modifyEngine fun e => { e with defining := some e.dict.nextId, dict := e.dict.add name }
    note (utf8 "define") fun m =>
      name ++ utf8 " #" ++ Text.ofInt (m.engine.defining.getD 0)

/-- Closes the open definition. -/
def endDefine : Act Unit := do
  modifyEngine fun e => { e with mode := .execute }
  match (← get).engine.opened? with
  | none => pure ()
  | some (target, f) =>
    emit target [Opcode.ret.code]
    note (utf8 "define") fun _ =>
      f.name ++ utf8 " done " ++ Code.listText (f.emit [Opcode.ret.code]).code
  modifyEngine fun e => { e with defining := none }

/-! ## How much input they use -/

theorem within_emit (id : FuncId) (code : List Code) : Within 0 (emit id code) :=
  within_modifyEngine _

theorem within_compileCall (word : Text) (id : FuncId) : Within 1 (compileCall word id) :=
  within_get.bind_zero fun m => by
    split
    · exact (broken_raise _).within 1
    · split
      · exact within_report _
      · exact ((within_note _ _).bind_zero fun _ => within_emit _ _).mono (by omega)

theorem within_compileLiteral (n : Int32) : Within 0 (compileLiteral n) :=
  within_get.bind_zero fun m => by
    split
    · exact (broken_raise _).within 0
    · exact (within_note _ _).bind_zero fun _ => within_emit _ _

/-- Reading a name uses up at least a weight of two. -/
theorem pending_of_nextName {m m' : Machine} {name : Text} (h : nextName m = .ok name m') :
    m'.pending + 2 ≤ m.pending := by
  induction m using nextName.induct with
  | case1 m m1 hword ih =>
    rw [nextName, hword] at h
    have := pending_of_nextWord hword
    have := ih h
    omega
  | case2 m name' m1 hword =>
    rw [nextName, hword] at h
    cases h
    simpa using pending_of_nextWord hword
  | case3 m i m1 hword =>
    rw [nextName, hword] at h
    cases h

/-- What a name leaves room for: whatever is done with it may add a weight of two. -/
theorem within_nextName_bind {α : Type} {next : Text → Act α}
    (hnext : ∀ name, Within 2 (next name)) :
    Within 0 (nextName >>= next : Act α) := by
  intro m a m' hok
  change EStateM.bind nextName next m = _ at hok
  unfold EStateM.bind at hok
  split at hok
  · next name m1 hname =>
    have := pending_of_nextName hname
    have := hnext name m1 a m' hok
    omega
  · cases hok

theorem within_define : Within 0 define :=
  (within_modifyEngine _).bind_zero fun _ => within_nextName_bind fun _ =>
    within_get.bind_zero fun m => by
      split
      · exact ((within_modifyEngine _).bind_zero fun _ => within_report _).mono (by omega)
      · exact ((within_modifyEngine _).bind_zero fun _ => within_note _ _).mono (by omega)

theorem within_endDefine : Within 0 endDefine :=
  (within_modifyEngine _).bind_zero fun _ => within_get.bind_zero fun m => by
    dsimp only
    split
    · exact within_modifyEngine _
    · exact (within_emit _ _).bind_zero fun _ => (within_note _ _).bind_zero fun _ =>
        within_modifyEngine _

end Machine

end ColonMachine
