import ColonMachine.Proofs.Stepping

/-!
# What actions are made of

A machine can do only a few things: look at its engine and at whether it shows prompts, change its
engine, take a note, write, print, report a diagnostic, read a word, and raise a fault.  An action
is **composed** if it is put together from these, one after the other and in loops that end with the
input.

Every instruction is composed (`composed_step`), and so is recovering from a fault
(`composed_recover`).  Whatever is to be shown of everything that a machine does is therefore shown
by an induction over `Composed`, with one case for each of these few things, and no word and no
instruction is looked at in it.

Only reading a word has parts of its own.  A line is read from the current stream on
(`Source.readOn`), and that is where an induction over the streams goes.
-/

namespace ColonMachine

/-! ## Reading a line -/

namespace Source

variable {ε : Type} {src : Source} {stream : Stream}

/-- The source after beginning a stream, with those behind it still queued. -/
def begun (src : Source) (stream : Stream) (queue : List Stream) : Source :=
  { src with queue, current := some stream, last := { name := stream.name } }

/-- Reads a line from the current stream or, after its end, from those behind it. -/
def readOn (hooks : Hooks ε) (stream : Stream) (src : Source) (env : ε) :
    Option Failure × Source × ε :=
  match src.attempt hooks stream env with
  | .line src env => (none, src, env)
  | .failed failure env => (some failure, src, env)
  | .ended env => readQueued hooks src.queue src env

lemma readQueued_cons (hooks : Hooks ε) (stream : Stream) (queue : List Stream) (src : Source)
    (env : ε) :
    readQueued hooks (stream :: queue) src env = (src.begun stream queue).readOn hooks stream env :=
  rfl

lemma readLine_of_none {hooks : Hooks ε} {env : ε} (h : src.current = none) :
    src.readLine hooks env = readQueued hooks src.queue src env := by
  rw [readLine, h]

lemma readLine_of_some {hooks : Hooks ε} {env : ε} (h : src.current = some stream) :
    src.readLine hooks env = src.readOn hooks stream env := by
  rw [readLine, h]
  rfl

end Source

namespace Machine

/-! ## Actions -/

/-- The action `act` does `body` again and again until that gives something, and every further round
has less left to read. -/
structure Repeats {α : Type} (body : Act (Option α)) (act : Act α) : Prop where
  done : ∀ {m a m'}, body m = .ok (some a) m' → act m = .ok a m'
  broken : ∀ {m i m'}, body m = .error i m' → act m = .error i m'
  again : ∀ {m m'}, body m = .ok none m' → act m = act m' ∧ m'.pending < m.pending

/-- An action that is put together from the few things that a machine can do. -/
inductive Composed : {α : Type} → Act α → Prop where
  | pure {α : Type} (a : α) : Composed (pure a : Act α)
  | bind {α β : Type} {act : Act α} {next : α → Act β} (h : Composed act)
      (hnext : ∀ a, Composed (next a)) : Composed (act >>= next)
  /-- Looking at the engine and at whether prompts are shown, and at nothing else. -/
  | look {α : Type} {next : Machine → Act α}
      (hsame : ∀ a b : Machine, a.engine = b.engine → a.input.prompting = b.input.prompting →
        next a = next b)
      (h : ∀ m, Composed (next m)) : Composed ((get : Act Machine) >>= next)
  | throw {α : Type} {i : Interrupt} (hi : ∀ cause, i ≠ .halt cause) : Composed (throw i : Act α)
  | engine (f : Engine → Engine) : Composed (modifyEngine f)
  /-- Turning prompts on or off. -/
  | prompting (on : Bool) : Composed
      (modify fun m => { m with input := { m.input with prompting := on } } : Act Unit)
  | note (mark : Text) (message : Machine → Text) : Composed (note mark message)
  | write (t : Text) : Composed (write t)
  | print (t : Text) : Composed (print t)
  | report (message : Text) : Composed (report message)
  | nextWord : Composed nextWord
  | attempt {α : Type} {act : Act α} (h : Composed act) : Composed (attempt act)
  | loop {α : Type} {body : Act (Option α)} {act : Act α} (h : Composed body)
      (hrepeats : Repeats body act) : Composed act

variable {α : Type}

lemma composed_raise (what : Fault) : Composed (raise what : Act α) := .throw nofun

/-- Looking at the engine only. -/
lemma Composed.lookEngine {next : Machine → Act α}
    (hsame : ∀ a b : Machine, a.engine = b.engine → next a = next b)
    (h : ∀ m, Composed (next m)) : Composed ((get : Act Machine) >>= next) :=
  .look (fun a b hengine _ => hsame a b hengine) h

/-! ## Primitives -/

lemma repeats_nextName : Repeats nextWord nextName where
  done := nextName_of_word
  broken := nextName_of_error
  again := by
    intro m m' hword
    have hless := pending_of_nextWord hword
    simp only [Option.isSome_none, Bool.false_eq_true, if_false] at hless
    exact ⟨nextName_of_line hword, hless⟩

lemma composed_nextName : Composed nextName := .loop .nextWord repeats_nextName

lemma composed_onStack (f : Stack → Except Fault Stack) : Composed (onStack f) := by
  refine .lookEngine (fun a b hengine => by rw [hengine]) fun m => ?_
  split
  · exact .engine _
  · exact composed_raise _

lemma composed_define : Composed define := by
  refine .bind (.engine _) fun _ => .bind composed_nextName fun name => ?_
  refine .lookEngine (fun a b hengine => by rw [hengine]) fun m => ?_
  split
  · exact .bind (.engine _) fun _ => .report _
  · exact .bind (.engine _) fun _ => .note _ _

lemma composed_endDefine : Composed endDefine := by
  refine .bind (.engine _) fun _ => .lookEngine (fun a b hengine => by rw [hengine]) fun m => ?_
  dsimp only
  split
  · exact .engine _
  · exact .bind (.engine _) fun _ => .bind (.note _ _) fun _ => .engine _

lemma composed_seeName (name : Text) : Composed (seeName name) := by
  refine .lookEngine (fun a b hengine => by rw [hengine]) fun m => ?_
  dsimp only
  split
  · exact .report _
  · exact .write _

lemma composed_see : Composed see := by
  refine .bind .nextWord fun word => ?_
  cases word with
  | none => exact .report _
  | some name => exact composed_seeName name

lemma composed_primitive (p : Primitive) : Composed (primitive p) := by
  cases p with
  | print =>
      refine .lookEngine (fun a b hengine => by rw [hengine]) fun m => ?_
      split
      · exact .print _
      · exact .write _
  | printStack => exact .lookEngine (fun a b hengine => by rw [hengine]) fun _ => .write _
  | clear => exact .engine fun e => { e with stack := [] }
  | exit => exact .bind (.note _ _) fun _ => .engine _
  | define => exact composed_define
  | endDefine => exact composed_endDefine
  | words => exact .lookEngine (fun a b hengine => by rw [hengine]) fun _ => .write _
  | see => exact composed_see
  | _ => exact composed_onStack _

lemma composed_native (n : Native) : Composed (native n) := by
  cases n with
  | primitive p => exact composed_primitive p
  | noop => exact .pure ()
  | push n => exact .engine fun e => { e with stack := n :: e.stack }
  | fail text => exact composed_raise _
  | panic payload => exact .throw (i := .panic payload) nofun
  | abandon => exact .throw (i := .abandon) nofun

/-! ## Calls and words -/

lemma composed_pushFrame (frame : Frame) : Composed (pushFrame frame) := by
  refine .lookEngine (fun a b hengine => by rw [hengine]) fun m => ?_
  dsimp only
  split
  · exact composed_raise _
  · exact .engine _

lemma composed_call (id : FuncId) : Composed (call id) := by
  refine .lookEngine (fun a b hengine => by rw [hengine]) fun m => ?_
  dsimp only
  split
  · exact composed_raise _
  · split
    · split
      · exact composed_native _
      · exact .pure ()
    · exact .bind (composed_pushFrame _) fun _ => .bind (.note _ _) fun _ => .engine _

lemma composed_ret : Composed ret := by
  refine .bind (.lookEngine (fun a b hengine => by rw [hengine]) fun m => ?_) fun frame => ?_
  · split
    · exact composed_raise _
    · exact .bind (.engine _) fun _ => .pure _
  · refine .bind (.engine _) fun _ => .lookEngine (fun a b hengine => by rw [hengine]) fun m => ?_
    split
    · exact .note _ _
    · exact .pure ()

lemma composed_compileCall (word : Text) (id : FuncId) : Composed (compileCall word id) := by
  refine .lookEngine (fun a b hengine => by rw [hengine]) fun m => ?_
  split
  · exact composed_raise _
  · split
    · exact .report _
    · exact .bind (.note _ _) fun _ => .engine _

lemma composed_compileLiteral (n : Int32) : Composed (compileLiteral n) := by
  refine .lookEngine (fun a b hengine => by rw [hengine]) fun m => ?_
  split
  · exact composed_raise _
  · exact .bind (.note _ _) fun _ => .engine _

lemma composed_dispatchFunction (word : Text) (id : FuncId) (f : Function) :
    Composed (dispatchFunction word id f) := by
  rw [dispatchFunction]
  split
  · exact .bind (.note _ _) fun _ => .bind (composed_call _) fun _ => .pure _
  · refine .lookEngine (fun a b hengine => by rw [hengine]) fun m => ?_
    split
    · exact .bind (composed_call _) fun _ => .pure _
    · exact .bind (composed_compileCall _ _) fun _ => .pure _

lemma composed_dispatchNumber (word : Text) : Composed (dispatchNumber word) := by
  rw [dispatchNumber]
  split
  · refine .lookEngine (fun a b hengine => by rw [hengine]) fun m => ?_
    dsimp only
    split
    · exact .bind (.engine _) fun _ => .pure _
    · exact .bind (composed_compileLiteral _) fun _ => .pure _
  · dsimp only
    split
    · exact .bind (.note _ _) fun _ => .bind (.report _) fun _ => .pure _
    · exact .bind (.report _) fun _ => .pure _

lemma composed_dispatch (word : Text) : Composed (dispatch word) := by
  refine .lookEngine (fun a b hengine => by rw [hengine]) fun m => ?_
  split
  · exact composed_dispatchFunction _ _ _
  · exact composed_dispatchNumber _

lemma composed_read : Composed read := by
  refine .bind .nextWord fun word => ?_
  cases word with
  | none => exact .pure _
  | some word => exact composed_dispatch word

/-- One round of the prompt: a word is read, unless the machine has stopped. -/
def promptRound : Act (Option Unit) := do
  if (← get).engine.running then
    let more ← read
    return if more then none else some ()
  else return some ()

lemma prompt_of_round (m : Machine) :
    match promptRound m with
    | .ok (some _) m' => prompt m = .ok () m'
    | .ok none m' => prompt m = prompt m' ∧ m'.pending < m.pending
    | .error i m' => prompt m = .error i m' := by
  rw [promptRound, get_bind]
  by_cases hrunning : m.engine.running = true
  · rw [if_pos hrunning]
    rcases hread : read m with ⟨_ | _, m'⟩ | ⟨i, m'⟩
    · rw [bind_of_ok hread]
      exact prompt_ended hrunning hread
    · rw [bind_of_ok hread]
      exact ⟨prompt_again hrunning hread, pending_of_read hread⟩
    · rw [bind_of_error hread]
      exact prompt_broken hrunning hread
  · rw [if_neg hrunning]
    exact prompt_stopped hrunning

lemma repeats_prompt : Repeats promptRound prompt := by
  refine ⟨?_, ?_, ?_⟩
  all_goals intro m
  · intro _ m' hround
    have h := prompt_of_round m
    rwa [hround] at h
  · intro i m' hround
    have h := prompt_of_round m
    rwa [hround] at h
  · intro m' hround
    have h := prompt_of_round m
    rwa [hround] at h

lemma composed_prompt : Composed prompt := by
  refine .loop ?_ repeats_prompt
  refine .lookEngine (fun a b hengine => by rw [hengine]) fun m => ?_
  split
  · exact .bind composed_read fun _ => .pure _
  · exact .pure _

/-! ## Instructions -/

lemma composed_readQuietly : Composed readQuietly := by
  refine .look (fun a b _ hprompting => by rw [hprompting]) fun m => ?_
  refine .bind (.prompting false) fun _ => .bind (.attempt composed_read) fun outcome => ?_
  refine .bind (.prompting m.input.prompting) fun _ => ?_
  cases outcome with
  | ok _ => exact .pure ()
  | error what => exact composed_raise _

lemma composed_fetch : Composed fetch := by
  refine .lookEngine (fun a b hengine => by rw [hengine]) fun m => ?_
  dsimp only
  split
  · exact .bind (.engine _) fun _ => .pure _
  · exact .bind (.engine _) fun _ => composed_raise _

lemma composed_execute (op : Opcode) : Composed (execute op) := by
  cases op with
  | call => exact .bind composed_fetch fun _ => composed_call _
  | jump => exact .bind composed_fetch fun _ => .engine _
  | prompt => exact composed_prompt
  | push => exact .bind composed_fetch fun _ => .engine _
  | read => exact composed_readQuietly
  | ret => exact composed_ret

/-- **Every instruction is composed.** -/
lemma composed_step : Composed step := by
  refine .bind composed_fetch fun code => .bind (.note _ _) fun _ => ?_
  split
  · exact composed_execute _
  · exact .lookEngine (fun a b hengine => by rw [hengine]) fun _ => composed_raise _

lemma composed_recover (what : Fault) : Composed (recover what) :=
  .bind (.note _ _) fun _ => .bind (.report _) fun _ => .engine _

end Machine

end ColonMachine
