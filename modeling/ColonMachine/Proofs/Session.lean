import ColonMachine.Machine.Settings
import Mathlib.Data.Nat.Notation
import Mathlib.Tactic.Common

/-!
# The language, evaluated directly

What a session means, said without a machine.  A `Session` has the words of the current line and the
lines after it, the dictionary, the data stack, and what has been written; it has no code counter,
no top level loop and no return stack.

* `word` deals with one word: it is run or compiled, as the mode says.
* `call` runs a function: a primitive is applied, and a compiled one is evaluated by evaluating its
  items one after the other.  `room` is how many more calls may be nested, so it is used up by
  recursion that goes too deep.
* `run` goes through the input.  A fault prints its line and abandons everything else on the current
  line, together with all calls in progress, which are simply the recursive calls that are left.

`run` is total because every word uses up input and nothing gives it back (`shrinks_word`).
-/

namespace ColonMachine

/-- A session, as somebody sees it who reads the language. -/
structure Session where
  line : List Text := []
  lines : List (List Text)
  dict : Dictionary := .initial
  stack : Stack := []
  mode : Mode := .execute
  defining : Option FuncId := none
  running : Bool := true
  output : Text := []

namespace Session

/-- Why an evaluation is not completed. -/
inductive Stop where
  | fault (what : Fault)
  /-- The input was used up while a name was wanted. -/
  | ended

/-- Something that is evaluated. -/
abbrev Eval (α : Type) := EStateM Stop Session α

/-! ## Evaluating -/

def say (text : Text) : Eval Unit := modify fun s => { s with output := s.output ++ text }

def push (n : Int32) : Eval Unit := modify fun s => { s with stack := n :: s.stack }

def onStack (f : Stack → Except Fault Stack) : Eval Unit := do
  match f (← get).stack with
  | .ok stack => modify fun s => { s with stack }
  | .error what => throw (.fault what)

def append (code : List Code) : Eval Unit := modify fun s =>
  { s with dict := match s.defining with
      | some id => s.dict.emit id code
      | none => s.dict }

/-- The next word, over as many lines as it takes, and the input after it. -/
def nextName? : (line : List Text) → (lines : List (List Text)) →
    Option (Text × List Text × List (List Text))
  | name :: line, lines => some (name, line, lines)
  | [], line :: lines => nextName? line lines
  | [], [] => none

-- How the message of a diagnostic is dressed up.
variable (dress : Text → Text)

/-- Prints a diagnostic, and drops the rest of the line. -/
def complain (message : Text) : Eval Unit := modify fun s =>
  { s with output := s.output ++ dress message ++ [Text.newline], line := [] }

/-- Opens a definition under the next name, which must be new. -/
def define : Eval Unit := fun s =>
  match nextName? s.line s.lines with
  | none => .error .ended { s with line := [], lines := [], mode := .compile }
  | some (name, line, lines) =>
    match s.dict.find? name with
    | some _ =>
      complain dress (utf8 "Function already defined: " ++ name)
        { s with line, lines, mode := .execute, defining := none }
    | none =>
      .ok () { s with
        line, lines, mode := .compile, defining := some s.dict.nextId, dict := s.dict.add name }

def endDefine : Eval Unit := do
  append [Opcode.ret.code]
  modify fun s => { s with mode := .execute, defining := none }

/-- Shows the definition of the next word of the line. -/
def see : Eval Unit := fun s =>
  match s.line with
  | [] => complain dress (utf8 "Error: see needs a function name") s
  | name :: line =>
    match s.dict.find? name with
    | none => complain dress (utf8 "Error: `" ++ name ++ utf8 "` not a function") { s with line }
    | some id => say (s.dict.definition id ++ [Text.newline]) { s with line }

def primitive : Primitive → Eval Unit
  | .print => do
    match (← get).stack with
    | top :: _ => say (Text.ofInt top.toInt ++ [Text.newline])
    | [] => say (utf8 "<empty>\n")
  | .printStack => do say (← get).stack.shown
  | .add => onStack (Stack.binary (· + ·))
  | .sub => onStack (Stack.binary (· - ·))
  | .mul => onStack (Stack.binary (· * ·))
  | .div => onStack Stack.divide
  | .dup => onStack Stack.dup
  | .drop => onStack Stack.drop
  | .clear => modify fun s => { s with stack := [] }
  | .swap => onStack Stack.swap
  | .exit => modify fun s => { s with running := false }
  | .define => define dress
  | .endDefine => endDefine
  | .words => do say ((← get).dict.nameList bootId ++ [Text.newline])
  | .see => see dress

/-- Evaluates one item of a compiled function. -/
def item (call : FuncId → Eval Unit) : Item → Eval Unit
  | .operand .call arg => call (Code.callee arg)
  | .operand .push arg => push arg.toInt32
  | _ => pure ()

/-- Evaluates items one after the other, as long as the session goes on. -/
def items (call : FuncId → Eval Unit) : List Item → Eval Unit
  | [] => pure ()
  | first :: others => do
    if (← get).running then
      item call first
      items call others

/-- Runs a function; `compiled` evaluates the items of one with code. -/
def invoke (compiled : List Item → Eval Unit) (id : FuncId) : Eval Unit := do
  match (← get).dict.get? id with
  | none => pure ()
  | some f =>
    if f.isNative then
      match f.native with
      | some (.primitive p) => primitive dress p
      | _ => pure ()
    else compiled ((Code.items f.code).map (·.1))

/-- Runs a function, if `room` more calls may be nested. -/
def call : (room : ℕ) → FuncId → Eval Unit
  | 0 => invoke dress fun _ => throw (.fault .returnOverflow)
  | room + 1 => invoke dress (items (call room))

/-- Runs or compiles a word; `limit` is how deep calls may be nested. -/
def word (limit : ℕ) (w : Text) : Eval Unit := do
  let s ← get
  match Machine.lookup? s.dict w with
  | some (id, f) =>
    if f.immediate || s.mode == .execute then call dress limit id
    else if maxCallId < id then
      complain dress (utf8 "Error: `" ++ w ++ utf8 "` cannot be compiled, function id " ++
        Text.ofInt id ++ utf8 " out of range")
    else append [Opcode.call.code, Code.ofCallee id]
  | none =>
    match w.readCell with
    | .ok n =>
      match s.mode with
      | .execute => push n
      | .compile => append [Opcode.push.code, n.toInt8]
    | .error _ => complain dress (utf8 "Error: `" ++ w ++ utf8 "` not a function or a number")

/-- The session after a fault. -/
def rescued (what : Fault) (s : Session) : Session :=
  { s with
    output := s.output ++ dress (utf8 "Error: " ++ what.message) ++ [Text.newline]
    line := [] }

/-! ## How much input is left -/

/-- The words of the lines, and their ends. -/
def extent (lines : List (List Text)) : ℕ := lines.foldr (fun line n => line.length + 1 + n) 0

/-- What is left to be read: all words, and the ends of the lines to come. -/
def remaining (s : Session) : ℕ := s.line.length + extent s.lines

/-- Whatever comes of it, the action does not add to what is left to be read. -/
def Shrinks {α : Type} (act : Eval α) : Prop :=
  ∀ s, match act s with
    | .ok _ s' => s'.remaining ≤ s.remaining
    | .error _ s' => s'.remaining ≤ s.remaining

section Shrinks

variable {α β : Type}

lemma shrinks_pure (a : α) : Shrinks (pure a : Eval α) := fun _ => Nat.le_refl _

lemma shrinks_get : Shrinks (get : Eval Session) := fun _ => Nat.le_refl _

lemma shrinks_throw (stop : Stop) : Shrinks (throw stop : Eval α) := fun _ => Nat.le_refl _

lemma shrinks_modify {f : Session → Session} (hf : ∀ s, (f s).remaining ≤ s.remaining) :
    Shrinks (modify f : Eval Unit) := hf

lemma Shrinks.bind {act : Eval α} {next : α → Eval β} (h : Shrinks act)
    (hnext : ∀ a, Shrinks (next a)) : Shrinks (act >>= next) := by
  intro s
  change match EStateM.bind act next s with
    | .ok _ s' => s'.remaining ≤ s.remaining
    | .error _ s' => s'.remaining ≤ s.remaining
  have hact := h s
  rw [EStateM.bind]
  cases hs : act s with
  | ok a s1 =>
      rw [hs] at hact
      have hrest := hnext a s1
      dsimp only at hact ⊢
      cases hs1 : next a s1 with
      | ok b s2 => rw [hs1] at hrest; exact Nat.le_trans hrest hact
      | error stop s2 => rw [hs1] at hrest; exact Nat.le_trans hrest hact
  | error stop s1 => rw [hs] at hact; exact hact

end Shrinks

lemma shrinks_say (text : Text) : Shrinks (say text) := shrinks_modify fun _ => Nat.le_refl _

lemma shrinks_push (n : Int32) : Shrinks (push n) := shrinks_modify fun _ => Nat.le_refl _

lemma shrinks_append (code : List Code) : Shrinks (append code) :=
  shrinks_modify fun _ => Nat.le_refl _

lemma shrinks_onStack (f : Stack → Except Fault Stack) : Shrinks (onStack f) := by
  refine shrinks_get.bind fun s => ?_
  split
  · exact shrinks_modify fun _ => Nat.le_refl _
  · exact shrinks_throw _

lemma remaining_discarded (s : Session) : remaining { s with line := [] } ≤ s.remaining := by
  simp [remaining]

lemma shrinks_complain (message : Text) : Shrinks (complain dress message) :=
  shrinks_modify remaining_discarded

lemma nextName?_length {line rest : List Text} {lines lines' : List (List Text)} {name : Text}
    (h : nextName? line lines = some (name, rest, lines')) :
    rest.length + extent lines' ≤ line.length + extent lines := by
  induction lines generalizing line with
  | nil =>
      cases line with
      | nil => cases h
      | cons w line => cases h; simp
  | cons next lines ih =>
      cases line with
      | nil =>
          have := ih h
          simp only [extent, List.foldr_cons, List.length_nil] at this ⊢
          omega
      | cons w line => cases h; simp

lemma shrinks_define : Shrinks (define dress) := by
  intro s
  rw [define]
  cases hname : nextName? s.line s.lines with
  | none => simp [remaining, extent]
  | some found =>
      obtain ⟨name, line, lines⟩ := found
      have hlength : remaining { s with line := line, lines := lines } ≤ s.remaining :=
        nextName?_length hname
      cases hfind : s.dict.find? name with
      | none =>
          simp only [hfind]
          exact hlength
      | some id =>
          simp only [hfind]
          exact Nat.le_trans (remaining_discarded { s with line := line, lines := lines }) hlength

lemma shrinks_see : Shrinks (see dress) := by
  intro s
  rw [see]
  cases hline : s.line with
  | nil => exact remaining_discarded s
  | cons name line =>
      have hlength : remaining { s with line := line } ≤ s.remaining := by
        simp only [remaining, hline, List.length_cons]
        omega
      cases hfind : s.dict.find? name with
      | none =>
          simp only [hfind]
          exact Nat.le_trans (remaining_discarded { s with line := line }) hlength
      | some id =>
          simp only [hfind]
          exact hlength

lemma shrinks_primitive (p : Primitive) : Shrinks (primitive dress p) := by
  cases p with
  | print =>
      refine shrinks_get.bind fun s => ?_
      split
      · exact shrinks_say _
      · exact shrinks_say _
  | printStack => exact shrinks_get.bind fun _ => shrinks_say _
  | clear => exact shrinks_modify fun _ => Nat.le_refl _
  | exit => exact shrinks_modify fun _ => Nat.le_refl _
  | define => exact shrinks_define dress
  | endDefine => exact (shrinks_append _).bind fun _ => shrinks_modify fun _ => Nat.le_refl _
  | words => exact shrinks_get.bind fun _ => shrinks_say _
  | see => exact shrinks_see dress
  | _ => exact shrinks_onStack _

lemma shrinks_items {call : FuncId → Eval Unit} (hcall : ∀ id, Shrinks (call id))
    (body : List Item) : Shrinks (items call body) := by
  have hitem : ∀ first, Shrinks (item call first) := by
    intro first
    rw [item.eq_def]
    split
    · exact hcall _
    · exact shrinks_push _
    · exact shrinks_pure ()
  induction body with
  | nil => exact shrinks_pure ()
  | cons first others ih =>
      refine shrinks_get.bind fun s => ?_
      split_ifs
      · exact (hitem first).bind fun _ => ih
      · exact shrinks_pure ()

lemma shrinks_invoke {compiled : List Item → Eval Unit} (h : ∀ body, Shrinks (compiled body))
    (id : FuncId) : Shrinks (invoke dress compiled id) := by
  refine shrinks_get.bind fun s => ?_
  split
  · exact shrinks_pure ()
  · split_ifs
    · split
      · exact shrinks_primitive dress _
      · exact shrinks_pure ()
    · exact h _

lemma shrinks_call (room : ℕ) (id : FuncId) : Shrinks (call dress room id) := by
  induction room generalizing id with
  | zero => exact shrinks_invoke dress (fun _ => shrinks_throw _) id
  | succ room ih => exact shrinks_invoke dress (shrinks_items ih) id

lemma shrinks_word (limit : ℕ) (w : Text) : Shrinks (word dress limit w) := by
  refine shrinks_get.bind fun s => ?_
  split
  · split_ifs
    · exact shrinks_call dress limit _
    · exact shrinks_complain dress _
    · exact shrinks_append _
  · split
    · split
      · exact shrinks_push _
      · exact shrinks_append _
    · exact shrinks_complain dress _

/-! ## A whole session -/

/-- Evaluates everything that is left to be read; `limit` is how deep calls may be nested. -/
def run (limit : ℕ) (s : Session) : Session :=
  if s.running then
    match _hline : s.line with
    | w :: line =>
      match _hword : word dress limit w { s with line } with
      | .ok () s' => run limit s'
      | .error (.fault what) s' => run limit (s'.rescued dress what)
      | .error .ended s' => s'
    | [] =>
      match _hlines : s.lines with
      | line :: lines => run limit { s with line, lines }
      | [] => s
  else s
termination_by s.remaining
decreasing_by
  · have hword := shrinks_word dress limit w { s with line }
    rw [_hword] at hword
    simp only [remaining, _hline, List.length_cons] at hword ⊢
    omega
  · have hword := shrinks_word dress limit w { s with line }
    rw [_hword] at hword
    simp only [remaining, rescued, _hline, List.length_cons, List.length_nil] at hword ⊢
    omega
  · simp only [remaining, _hline, _hlines, extent, List.foldr_cons, List.length_nil]
    omega

variable {dress} {limit : ℕ} {s : Session}

/-- How a session goes on after a word. -/
def concluded (dress : Text → Text) (limit : ℕ) : EStateM.Result Stop Session Unit → Session
  | .ok () s => run dress limit s
  | .error (.fault what) s => run dress limit (s.rescued dress what)
  | .error .ended s => s

lemma run_stopped (h : s.running = false) : run dress limit s = s := by
  rw [run, if_neg (by simp [h])]

lemma run_word {w : Text} {line : List Text} (hrunning : s.running = true)
    (hline : s.line = w :: line) :
    run dress limit s = concluded dress limit (word dress limit w { s with line }) := by
  rw [run, if_pos hrunning]
  split
  · next w' line' hline' =>
    rw [hline] at hline'
    cases hline'
    rcases word dress limit w { s with line } with ⟨⟨⟩, s'⟩ | ⟨what | _, s'⟩ <;> rfl
  · next hnil =>
    rw [hline] at hnil
    cases hnil

lemma run_nextLine {line : List Text} {lines : List (List Text)} (hrunning : s.running = true)
    (hline : s.line = []) (hlines : s.lines = line :: lines) :
    run dress limit s = run dress limit { s with line, lines } := by
  rw [run, if_pos hrunning]
  split
  · next hcons =>
    rw [hline] at hcons
    cases hcons
  · split
    · next hlines' =>
      rw [hlines] at hlines'
      cases hlines'
      rfl
    · next hnil =>
      rw [hlines] at hnil
      cases hnil

lemma run_ended (hline : s.line = []) (hlines : s.lines = []) : run dress limit s = s := by
  rw [run]
  split_ifs
  · split
    · next hcons =>
      rw [hline] at hcons
      cases hcons
    · split
      · next hcons =>
        rw [hlines] at hcons
        cases hcons
      · rfl
  · rfl

end Session

end ColonMachine
