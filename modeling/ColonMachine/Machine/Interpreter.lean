import ColonMachine.Machine.Words

/-!
# From words to actions

A word is looked up in the dictionary, and if it is not there it is read as a number.  Then it is
run or compiled, as the mode says; an immediate function always runs.  `dispatch` tells whether
the line may be read on: it may not when control has passed to an interpreted function, which
must run first.

`prompt` reads and dispatches words up to the end of the line, or until control passes to an
interpreted function.
-/

namespace ColonMachine.Machine

/-- Calls a function: one with code is entered, any other runs to its end at once. -/
def call (id : FuncId) : Act Unit := do
  let e := (← get).engine
  match e.dict.get? id with
  | none => raise (.undefinedCall id)
  | some f =>
    if f.isNative then
      match f.native with
      | some n => native n
      | none => pure ()
    else
      pushFrame ⟨e.fn, e.pc⟩
      note (utf8 "call") fun _ => f.name
      modifyEngine fun e => { e with fn := id, pc := -1 }

/-- Returns from a call. -/
def ret : Act Unit := do
  let frame ← popFrame
  modifyEngine fun e => { e with fn := frame.fn, pc := frame.pc }
  match (← get).engine.dict.get? frame.fn with
  | some f => note (utf8 "return") fun _ => f.name
  | none => pure ()

/-- Runs or compiles the function `id`, which was read as `word`. -/
def dispatchFunction (word : Text) (id : FuncId) (f : Function) : Act Bool := do
  if f.immediate then
    note (utf8 "run") fun _ => utf8 "immediate " ++ word
    call id
    return f.isNative
  else
    match (← get).engine.mode with
    | .execute =>
      call id
      return f.isNative
    | .compile =>
      compileCall word id
      return true

/-- Pushes or compiles the number that `word` stands for. -/
def dispatchNumber (word : Text) : Act Bool := do
  match word.readCell with
  | .ok n =>
    match (← get).engine.mode with
    | .execute => push n
    | .compile => compileLiteral n
    return true
  | .error why =>
    if why = .outOfRange then
      note (utf8 "!") fun _ => utf8 "number " ++ word.quote ++ utf8 " out of range"
    report (utf8 "Error: `" ++ word ++ utf8 "` not a function or a number")
    return true

/-- The function a word stands for. -/
def lookup? (d : Dictionary) (word : Text) : Option (FuncId × Function) := do
  let id ← d.find? word
  let f ← d.get? id
  return (id, f)

/-- Runs or compiles a word, and tells whether the line may be read on. -/
def dispatch (word : Text) : Act Bool := do
  match lookup? (← get).engine.dict word with
  | some (id, f) => dispatchFunction word id f
  | none => dispatchNumber word

/-- Reads and dispatches one word; `false` at the end of a line. -/
def read : Act Bool := do
  match ← nextWord with
  | none => return false
  | some word => dispatch word

/-! ## How much input they use -/

theorem within_call (id : FuncId) : Within 0 (call id) :=
  within_get.bind_zero fun m => by
    dsimp only
    split
    · exact (broken_raise _).within 0
    · split
      · split
        · exact within_native _
        · exact within_pure _
      · exact (within_pushFrame _).bind_zero fun _ => (within_note _ _).bind_zero fun _ =>
          within_modifyEngine _

theorem within_dispatchFunction (word : Text) (id : FuncId) (f : Function) :
    Within 1 (dispatchFunction word id f) := by
  unfold dispatchFunction
  split
  · exact ((within_note _ _).bind_zero fun _ => (within_call _).bind_zero fun _ =>
      within_pure _).mono (by omega)
  · refine within_get.bind_zero fun m => ?_
    split
    · exact ((within_call _).bind_zero fun _ => within_pure _).mono (by omega)
    · exact (within_compileCall _ _).bind fun _ => within_pure _

theorem within_dispatchNumber (word : Text) : Within 1 (dispatchNumber word) := by
  unfold dispatchNumber
  split
  · refine within_get.bind_zero fun m => ?_
    dsimp only
    split
    · exact ((within_push _).bind_zero fun _ => within_pure _).mono (by omega)
    · exact ((within_compileLiteral _).bind_zero fun _ => within_pure _).mono (by omega)
  · dsimp only
    split
    · exact (within_note _ _).bind_zero fun _ => (within_report _).bind fun _ => within_pure _
    · exact (within_report _).bind fun _ => within_pure _

theorem within_dispatch (word : Text) : Within 1 (dispatch word) :=
  within_get.bind_zero fun m => by
    split
    · exact within_dispatchFunction _ _ _
    · exact within_dispatchNumber _

/-- A word that was read and dispatched leaves less to be read. -/
theorem pending_of_read {m m' : Machine} (h : read m = .ok true m') : m'.pending < m.pending := by
  change EStateM.bind nextWord _ m = _ at h
  unfold EStateM.bind at h
  split at h
  · next word m1 hword =>
    have hread := pending_of_nextWord hword
    cases word with
    | none => cases h
    | some word =>
      have := within_dispatch word m1 true m' h
      simp at hread
      omega
  · cases h

/-! ## A line of words -/

/-- Reads and dispatches words, until the line is used up or control has passed to an interpreted
function. -/
def prompt (m : Machine) : Result Unit :=
  if m.engine.running then
    match _hread : read m with
    | .ok true m' => prompt m'
    | .ok false m' => .ok () m'
    | .error interrupt m' => .error interrupt m'
  else .ok () m
termination_by m.pending
decreasing_by exact pending_of_read _hread

end ColonMachine.Machine
