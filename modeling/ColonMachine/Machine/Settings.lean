import ColonMachine.Machine.Step

/-!
# Settings

A new machine is made from settings, applied in order on top of the defaults.  Settings can be
grouped, to any depth, and a group does no more than its members one after the other.

* `Machine.initial` is the machine with all primitives and the top level loop.
* `Setting.apply` applies one setting, also to a machine that is already in use.
* `Setting.combine` makes one setting of several, which opens the groups among them.
* `Machine.create` makes a machine from settings, which fails only if a text that is to be written
  in as input cannot be written.
-/

namespace ColonMachine

/-! ## The machine before any setting -/

namespace Dictionary

/-- The primitives that come before the top level loop, in the order of their ids. -/
def enginePrimitives : List (String × Primitive) :=
  [(".", .print), ("..", .printStack), ("+", .add), ("-", .sub), ("*", .mul), ("/", .div),
    ("dup", .dup), ("pop", .drop), ("clr", .clear), ("swp", .swap), ("exit", .exit)]

/-- The name of the top level loop, which no word can have. -/
def bootName : Text := [Text.space]

/-- The top level loop: prompt, and jump back to the prompt.  A jump counts from its operand. -/
def bootCode : List Code := [Opcode.prompt.code, Opcode.jump.code, -2]

/-- A function run by a primitive. -/
def ofPrimitive (entry : String × Primitive) : Function :=
  { name := utf8 entry.1, native := some (.primitive entry.2) }

/-- The functions every machine is born with. -/
def initial : Dictionary where
  functions :=
    enginePrimitives.map ofPrimitive ++
    [{ name := bootName, code := bootCode },
      ofPrimitive (":", .define),
      { ofPrimitive (";", .endDefine) with immediate := true },
      ofPrimitive ("words", .words),
      ofPrimitive ("see", .see)]

end Dictionary

namespace Machine

/-- A machine without input, whose output is discarded. -/
def initial : Machine where
  engine := { dict := Dictionary.initial, fn := bootId }

end Machine

/-! ## The prelude -/

/-- The name of the prelude. -/
def preludeName : Text := utf8 "prelude.wf"

/-- A few words that can be defined from the primitives. -/
def preludeText : Text := utf8
  ": neg 0 swp - ;\n: sq dup * ;\n: cube dup dup * * ;\n: inc 1 + ;\n: dec 1 - ;\n: sumsq\n  sq swp sq + ;\n"

/-! ## Applying settings -/

/-- One setting of a machine. -/
inductive Setting where
  /-- Queue a stream, with what is to be closed for it. -/
  | input (stream : Stream) (closer : Option Closer)
  /-- Queue a text written by somebody under a name; writing it may fail. -/
  | written (name : Text) (text : Except Failure Text)
  /-- Queue the prelude. -/
  | prelude
  /-- Send the output to an outlet. -/
  | output (outlet : Outlet)
  /-- Send the output to one more outlet. -/
  | tee (outlet : Outlet)
  /-- Set the prompts. -/
  | prompts (prompts : Prompts)
  /-- Set the limit of the return stack. -/
  | limit (n : Int)
  /-- Set how diagnostics are dressed up. -/
  | style (dress : Text → Text)
  /-- Let the trace go to a log, or to none. -/
  | trace (log : Option Nat := some 0)
  /-- Several settings, in order. -/
  | group (members : List Setting)
  /-- No setting at all. -/
  | nothing

namespace Machine

/-- Queues a stream. -/
def feed (stream : Stream) (m : Machine) : Machine := { m with input := m.input.feed stream }

/-- Sends the output to an outlet, after flushing where it went before. -/
def redirect (outlet : Outlet) (m : Machine) : Machine :=
  let c := m.console.flush.2
  { m with console := { c with
      outlets := c.outlets ++ [outlet], route := .single c.outlets.length } }

/-- Sends the output to one more outlet. -/
def branch (outlet : Outlet) (m : Machine) : Machine :=
  let c := m.console
  let route := (Route.combine [some c.route, some (.single c.outlets.length)]).getD c.route
  { m with console := { c with outlets := c.outlets ++ [outlet], route } }

end Machine

namespace Setting

/-- Applies a setting that is not a group. -/
def applyOne (m : Machine) : Setting → Except Failure Machine
  | input stream closer =>
    .ok { m.feed stream with closers := m.closers ++ closer.toList }
  | written name text => text.map fun text => m.feed (.ofText name text)
  | prelude => .ok (m.feed (.ofText preludeName preludeText))
  | output outlet => .ok (m.redirect outlet)
  | tee outlet => .ok (m.branch outlet)
  | prompts p => .ok { m with console := { m.console with prompts := p } }
  | limit n => .ok { m with engine := { m.engine with limit := n } }
  | style dress => .ok { m with console := { m.console with style := dress } }
  | trace log => .ok { m with trace := { m.trace with log } }
  | group _ | nothing => .ok m

mutual

/-- Applies a setting. -/
def apply (m : Machine) : Setting → Except Failure Machine
  | group members => applyAll m members
  | setting => applyOne m setting

/-- Applies settings in order. -/
def applyAll (m : Machine) : List Setting → Except Failure Machine
  | [] => .ok m
  | setting :: others =>
    match apply m setting with
    | .ok m => applyAll m others
    | .error failure => .error failure

end

/-- What a setting brings into a group: its members if it is a group itself, and nothing if it is
no setting at all. -/
def members : Setting → List Setting
  | group members => members
  | nothing => []
  | setting => [setting]

/-- Combines settings into one that applies them in order.  If a single one is left after groups
have been opened, it is that one. -/
def combine (settings : List Setting) : Setting :=
  match settings.flatMap members with
  | [setting] => setting
  | settings => group settings

section

variable (m : Machine)

theorem applyAll_cons (setting : Setting) (others : List Setting) :
    applyAll m (setting :: others) = (apply m setting).bind fun m => applyAll m others := by
  rw [applyAll]
  cases apply m setting <;> rfl

theorem applyAll_append (settings others : List Setting) :
    applyAll m (settings ++ others) = (applyAll m settings).bind fun m => applyAll m others := by
  induction settings generalizing m with
  | nil => simp only [List.nil_append, applyAll, Except.bind]
  | cons setting settings ih =>
    rw [List.cons_append, applyAll_cons, applyAll_cons]
    cases apply m setting with
    | error failure => rfl
    | ok m => exact ih m

theorem applyAll_singleton (setting : Setting) : applyAll m [setting] = apply m setting := by
  simp only [applyAll]
  cases apply m setting <;> rfl

theorem applyAll_members (setting : Setting) : applyAll m setting.members = apply m setting := by
  cases setting with
  | group inner => simp only [members, apply]
  | nothing => simp only [members, applyAll, apply, applyOne]
  | _ => exact applyAll_singleton m _

theorem applyAll_flatMap_members (settings : List Setting) :
    applyAll m (settings.flatMap members) = applyAll m settings := by
  induction settings generalizing m with
  | nil => rfl
  | cons setting settings ih =>
    rw [List.flatMap_cons, applyAll_append, applyAll_members, applyAll_cons]
    simp only [ih]

/-- **What is combined is applied in order.** -/
theorem apply_combine (settings : List Setting) :
    apply m (combine settings) = applyAll m settings := by
  rw [← applyAll_flatMap_members, combine]
  split
  · next setting hsettings => rw [hsettings, applyAll_singleton]
  · rw [apply]

end

mutual

/-- The settings that a setting comes down to. -/
def leaves : Setting → List Setting
  | group members => allLeaves members
  | nothing => []
  | setting => [setting]

/-- The settings that several settings come down to, from left to right. -/
def allLeaves : List Setting → List Setting
  | [] => []
  | setting :: others => leaves setting ++ allLeaves others

end

end Setting

namespace Machine

/-- The machine, ready to run: from now on, what its output goes to is flushed before a line is
read, and prompts are shown. -/
def ready (m : Machine) : Machine :=
  { m with
    console := { m.console with settled := m.console.route }
    input := { m.input with prompting := true } }

/-- Makes a machine from settings. -/
def create (settings : List Setting) : Except Failure Machine :=
  (Setting.apply initial (Setting.combine settings)).map ready

theorem create_eq_applyAll (settings : List Setting) :
    create settings = (Setting.applyAll initial settings).map ready := by
  rw [create, Setting.apply_combine]

end Machine

end ColonMachine
