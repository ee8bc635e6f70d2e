import ColonMachine.Proofs.Stepping
import Mathlib.Logic.Relation

/-!
# What a machine does is made of small changes

Whatever an action does to a machine, and wherever it is interrupted, it does in small changes, and
there are few kinds of them.

* `Update` lists those of the engine.  The dictionary is touched by two of them only: a definition
  is opened under a new name, and the open definition is added to.
* `Utterance` lists those of the console.
* `Change` puts them together with those of the source and the trace, and `Changes` is any number of
  them.

`changes_exec` and `changes_run` say that executing instructions, in whatever state they are begun
and however they end, amounts to `Changes`.  Hence what no single change breaks, no session breaks
(`Changes.keeps`), and nothing that is shown in this way has to be shown for every action again.
-/

namespace ColonMachine

/-! ## Changes -/

/-- One change of an engine. -/
inductive Update (e : Engine) : Engine → Prop where
  | moved (fn : FuncId) (pc : ℤ) (frames : List Frame) :
      Update e { e with fn := fn, pc := pc, frames := frames }
  | stack (s : Stack) : Update e { e with stack := s }
  | stopped : Update e { e with running := false }
  | mode (mode : Mode) : Update e { e with mode := mode }
  | left : Update e { e with defining := none }
  /-- A definition is opened under a word that is not in the dictionary. -/
  | opened {name : Text} (hname : name.IsWord) (hnew : e.dict.find? name = none) :
      Update e { e with defining := some e.dict.nextId, dict := e.dict.add name }
  /-- Code is added to the open definition. -/
  | emitted {id : FuncId} (code : List Code) (hdefining : e.defining = some id) :
      Update e { e with dict := e.dict.emit id code }

abbrev Updates : Engine → Engine → Prop := Relation.ReflTransGen Update

/-- One change of a console. -/
inductive Utterance (c : Console) : Console → Prop where
  | hand (manner : Manner) (piece : Text) : Utterance c (c.hand manner piece).2
  | flush : Utterance c c.flush.2
  | settle : Utterance c c.settle.2
  | reported : Utterance c { c with reported := true }

namespace Machine

/-- One change of a machine. -/
inductive Change (m : Machine) : Machine → Prop where
  | engine {e : Engine} (h : Update m.engine e) : Change m { m with engine := e }
  | input {src : Source} (h : m.input.Tidy → src.Tidy) : Change m { m with input := src }
  | console {c : Console} (h : Utterance m.console c) : Change m { m with console := c }
  | trace (t : Trace) : Change m { m with trace := t }

abbrev Changes : Machine → Machine → Prop := Relation.ReflTransGen Change

variable {α β : Type} {m m' : Machine}

/-- What every change keeps, any number of changes keeps. -/
lemma Changes.keeps {P : Machine → Prop} (h : Changes m m') (hm : P m)
    (hchange : ∀ m m', P m → Change m m' → P m') : P m' := by
  induction h with
  | refl => exact hm
  | tail _ hlast ih => exact hchange _ _ ih hlast

lemma Changes.tidy (h : Changes m m') (hm : m.input.Tidy) : m'.input.Tidy := by
  refine h.keeps (P := fun m => m.input.Tidy) hm ?_
  intro m m' hm hchange
  cases hchange with
  | input hinput => exact hinput hm
  | _ => exact hm

lemma changes_engine {e : Engine} (h : Updates m.engine e) : Changes m { m with engine := e } := by
  induction h with
  | refl => exact .refl
  | tail _ hlast ih => exact ih.tail (Change.engine hlast)

lemma changes_console {c : Console} (h : Utterance m.console c) :
    Changes m { m with console := c } := .single (.console h)

lemma changes_input (src : Source) (h : m.input.Tidy → src.Tidy) :
    Changes m { m with input := src } := .single (.input h)

lemma changes_noted (mark : Text) (message : Machine → Text) (m : Machine) :
    Changes m (noted mark message m) := by
  rw [noted]
  split_ifs
  · exact .single (.trace _)
  · exact .refl

/-! ## Actions -/

/-- From `m`, the action does nothing but changes, whether or not it completes. -/
def Proceeds (act : Act α) (m : Machine) : Prop := m.input.Tidy → Changes m (Result.machine (act m))

lemma proceeds_pure (a : α) (m : Machine) : Proceeds (pure a : Act α) m := fun _ => .refl

lemma proceeds_throw (i : Interrupt) (m : Machine) : Proceeds (throw i : Act α) m := fun _ => .refl

lemma Proceeds.bind {act : Act α} {next : α → Act β} (h : Proceeds act m)
    (hnext : ∀ a m', act m = .ok a m' → Proceeds (next a) m') : Proceeds (act >>= next) m := by
  intro htidy
  have hact := h htidy
  rw [bind_apply]
  cases hresult : act m with
  | ok a m' =>
      rw [hresult] at hact
      exact hact.trans (hnext a m' hresult (hact.tidy htidy))
  | error i m' =>
      rw [hresult] at hact
      exact hact

lemma Proceeds.get {next : Machine → Act β} (h : Proceeds (next m) m) :
    Proceeds ((get : Act Machine) >>= next) m := h

lemma proceeds_modify {f : Machine → Machine} (h : Changes m (f m)) :
    Proceeds (modify f : Act Unit) m := fun _ => h

lemma proceeds_modifyEngine {f : Engine → Engine} (h : Updates m.engine (f m.engine)) :
    Proceeds (modifyEngine f) m := fun _ => changes_engine h

lemma proceeds_note (mark : Text) (message : Machine → Text) (m : Machine) :
    Proceeds (note mark message) m := proceeds_modify (changes_noted mark message m)

/-! ## Speaking -/

lemma proceeds_speak {act : Console → Option Failure × Console}
    (h : Changes m { m with console := (act m.console).2 }) : Proceeds (speak act) m := fun _ => h

lemma proceeds_halt (cause : Option Failure) (m : Machine) : Proceeds (halt cause : Act α) m := by
  refine (proceeds_speak (changes_console .flush)).bind fun _ _ _ => ?_
  exact (proceeds_note _ _ _).bind fun _ _ _ => proceeds_throw _ _

lemma proceeds_haltIf (failure : Option Failure) (m : Machine) : Proceeds (haltIf failure) m := by
  cases failure with
  | none => exact proceeds_pure () m
  | some failure => exact proceeds_halt _ m

lemma changes_write (t : Text) (m : Machine) :
    Changes m { m with console := (m.console.write t).2 } := by
  rw [Console.write]
  split_ifs
  · exact .refl
  · exact changes_console (.hand _ _)

lemma proceeds_write (t : Text) (m : Machine) : Proceeds (write t) m :=
  (proceeds_speak (changes_write t m)).bind fun _ _ _ => proceeds_haltIf _ _

lemma proceeds_print (t : Text) (m : Machine) : Proceeds (print t) m :=
  (proceeds_speak (changes_console (.hand _ _))).bind fun _ _ _ => proceeds_haltIf _ _

lemma proceeds_discard (m : Machine) : Proceeds discard m :=
  proceeds_modify (changes_input _ fun _ => m.input.tidy_discard)

lemma proceeds_report (message : Text) (m : Machine) : Proceeds (report message) m := by
  refine (proceeds_note _ _ m).bind fun _ m1 _ => Proceeds.get ?_
  refine (proceeds_write _ m1).bind fun _ m2 _ => (proceeds_write _ m2).bind fun _ m3 _ => ?_
  refine (proceeds_modify (changes_console .reported)).bind fun _ m4 _ => ?_
  exact proceeds_discard m4

/-! ## Reading -/

end Machine

namespace Source

variable {ε : Type} {hooks : Hooks ε} {P : ε → Prop}

lemma announce_keeps (hprompt : ∀ loc env, P env → P (hooks.prompt loc env).2)
    (hflush : ∀ env, P env → P (hooks.flush env).2) (src : Source) {env : ε} (henv : P env) :
    P (src.announce hooks env).2 := by
  rw [announce]
  have hafter := hprompt src.last env henv
  split_ifs
  · split
    · next heq => rw [heq] at hafter; exact hafter
    · next heq => rw [heq] at hafter; exact hflush _ hafter
  · exact hflush env henv

/-- What becomes of the environment in an attempt. -/
def Attempt.env : Attempt ε → ε
  | line _ env | failed _ env | ended env => env

lemma env_attempt (stream : Stream) (src : Source) (env : ε) :
    (src.attempt hooks stream env).env = (src.announce hooks env).2 := by
  rw [attempt]
  split
  · next heq => rw [heq]; rfl
  · next heq =>
    rw [heq]
    split
    · rfl
    · split <;> rfl

lemma readQueued_keeps (hprompt : ∀ loc env, P env → P (hooks.prompt loc env).2)
    (hflush : ∀ env, P env → P (hooks.flush env).2) (queue : List Stream) (src : Source) {env : ε}
    (henv : P env) : P (readQueued hooks queue src env).2.2 := by
  induction queue generalizing src env with
  | nil => exact henv
  | cons stream queue ih =>
      rw [readQueued]
      generalize { src with queue, current := some stream, last := { name := stream.name } } = src1
      have hafter := announce_keeps hprompt hflush src1 henv
      rw [← env_attempt stream] at hafter
      cases hattempt : src1.attempt hooks stream env <;> rw [hattempt] at hafter
      · exact hafter
      · exact hafter
      · exact ih src1 hafter

/-- What both hooks keep, reading a word keeps. -/
lemma nextWord_keeps (hprompt : ∀ loc env, P env → P (hooks.prompt loc env).2)
    (hflush : ∀ env, P env → P (hooks.flush env).2) (src : Source) {env : ε} (henv : P env) :
    P (src.nextWord hooks env).2.2 := by
  have hline : P (src.readLine hooks env).2.2 := by
    rw [readLine]
    cases src.current with
    | none => exact readQueued_keeps hprompt hflush _ _ henv
    | some stream =>
        have hafter := announce_keeps hprompt hflush src henv
        rw [← env_attempt stream] at hafter
        dsimp only
        cases hattempt : src.attempt hooks stream env <;> rw [hattempt] at hafter
        · exact hafter
        · exact hafter
        · exact readQueued_keeps hprompt hflush _ _ hafter
  rw [nextWord]
  split_ifs
  · split
    · next heq => rw [heq] at hline; exact hline
    · next heq => rw [heq] at hline; exact hline
  · exact henv

end Source

namespace Machine

variable {α β : Type} {m m' : Machine}

lemma proceeds_pull (m : Machine) : Proceeds pull m := by
  intro _
  have hconsole : Changes m { m with
      console := (m.input.nextWord (Console.hooks m.engine.mode) m.console).2.2 } := by
    refine Source.nextWord_keeps (P := fun c => Changes m { m with console := c }) ?_ ?_ _ .refl
    · intro _ c hc
      exact hc.trans (changes_write (m := { m with console := c }) _)
    · intro c hc
      exact hc.tail (.console .settle)
  exact hconsole.tail (.input Source.tidy_nextWord)

lemma proceeds_nextWord (m : Machine) : Proceeds nextWord m := by
  refine (proceeds_pull m).bind fun word m1 _ => ?_
  rcases word with failure | _ | word
  · exact proceeds_halt _ m1
  · exact proceeds_pure _ m1
  · exact (proceeds_note _ _ m1).bind fun _ m2 _ => proceeds_pure _ m2

lemma proceeds_nextName (m : Machine) : Proceeds nextName m := by
  intro htidy
  have hnext := proceeds_nextWord m htidy
  induction m using nextName.induct with
  | case1 m m1 hword ih =>
      rw [hword] at hnext
      rw [nextName_of_line hword]
      exact hnext.trans (ih (hnext.tidy htidy) (proceeds_nextWord m1 (hnext.tidy htidy)))
  | case2 m name m1 hword =>
      rw [hword] at hnext
      rw [nextName_of_word hword]
      exact hnext
  | case3 m i m1 hword =>
      rw [hword] at hnext
      rw [nextName_of_error hword]
      exact hnext

/-! ## Natives -/

lemma proceeds_onStack (f : Stack → Except Fault Stack) (m : Machine) : Proceeds (onStack f) m := by
  refine Proceeds.get ?_
  split
  · exact proceeds_modifyEngine (.single (.stack _))
  · exact proceeds_throw _ m

lemma proceeds_seeName (name : Text) (m : Machine) : Proceeds (seeName name) m := by
  refine Proceeds.get ?_
  dsimp only
  split
  · exact proceeds_report _ m
  · exact proceeds_write _ m

lemma proceeds_see (m : Machine) : Proceeds see m := by
  refine (proceeds_nextWord m).bind fun word m1 _ => ?_
  cases word with
  | none => exact proceeds_report _ m1
  | some name => exact proceeds_seeName name m1

lemma proceeds_define (m : Machine) : Proceeds define m := by
  refine (proceeds_modifyEngine (.single (.mode _))).bind fun _ m1 _ => ?_
  intro htidy
  refine (proceeds_nextName m1).bind (fun name m2 hname => Proceeds.get ?_) htidy
  split
  · refine (proceeds_modifyEngine ?_).bind fun _ m3 _ => proceeds_report _ m3
    exact .tail (.single (.mode .execute)) .left
  · next hnew =>
    refine (proceeds_modifyEngine ?_).bind fun _ m3 _ => proceeds_note _ _ m3
    exact .single (.opened (isWord_of_nextName htidy hname) hnew)

lemma defining_of_opened? {e : Engine} {target : FuncId} {f : Function}
    (h : e.opened? = some (target, f)) : e.defining = some target := by
  simp only [Engine.opened?, Option.bind_eq_bind, Option.bind_eq_some_iff, Option.pure_def,
    Option.some.injEq, Prod.mk.injEq] at h
  obtain ⟨id, hid, -, -, rfl, -⟩ := h
  exact hid

lemma proceeds_emit {target : FuncId} (code : List Code) (h : m.engine.defining = some target) :
    Proceeds (emit target code) m := proceeds_modifyEngine (.single (.emitted code h))

lemma proceeds_endDefine (m : Machine) : Proceeds endDefine m := by
  refine (proceeds_modifyEngine (.single (.mode _))).bind fun _ m1 _ => Proceeds.get ?_
  dsimp only
  split
  · exact proceeds_modifyEngine (.single .left)
  · next target f hopened =>
    refine (proceeds_emit _ (defining_of_opened? hopened)).bind fun _ m2 _ => ?_
    refine (proceeds_note _ _ m2).bind fun _ m3 _ => ?_
    exact proceeds_modifyEngine (.single .left)

lemma proceeds_primitive (p : Primitive) (m : Machine) : Proceeds (primitive p) m := by
  cases p with
  | print =>
      refine Proceeds.get ?_
      split
      · exact proceeds_print _ m
      · exact proceeds_write _ m
  | printStack => exact Proceeds.get (proceeds_write _ m)
  | clear => exact proceeds_modifyEngine (f := fun e => { e with stack := [] }) (.single (.stack _))
  | exit =>
      refine (proceeds_note _ _ m).bind fun _ m1 _ => ?_
      exact proceeds_modifyEngine (.single .stopped)
  | define => exact proceeds_define m
  | endDefine => exact proceeds_endDefine m
  | words => exact Proceeds.get (proceeds_write _ m)
  | see => exact proceeds_see m
  | _ => exact proceeds_onStack _ m

lemma proceeds_native (n : Native) (m : Machine) : Proceeds (native n) m := by
  cases n with
  | primitive p => exact proceeds_primitive p m
  | noop => exact proceeds_pure () m
  | push n =>
      exact proceeds_modifyEngine (f := fun e => { e with stack := n :: e.stack })
        (.single (.stack _))
  | fail text => exact proceeds_throw _ m
  | panic payload => exact proceeds_throw _ m
  | abandon => exact proceeds_throw _ m

/-! ## Calls and words -/

lemma proceeds_call (id : FuncId) (m : Machine) : Proceeds (call id) m := by
  refine Proceeds.get ?_
  dsimp only
  split
  · exact proceeds_throw _ m
  · split_ifs
    · split
      · exact proceeds_native _ m
      · exact proceeds_pure () m
    · refine Proceeds.bind (Proceeds.get ?_) fun _ m1 _ => ?_
      · dsimp only
        split_ifs
        · exact proceeds_throw _ m
        · exact proceeds_modifyEngine (.single (.moved _ _ _))
      · refine (proceeds_note _ _ m1).bind fun _ m2 _ => ?_
        exact proceeds_modifyEngine (.single (.moved _ _ _))

lemma proceeds_ret (m : Machine) : Proceeds ret m := by
  refine Proceeds.bind (Proceeds.get ?_) fun frame m1 _ => ?_
  · split
    · exact proceeds_throw _ m
    · exact (proceeds_modifyEngine (.single (.moved _ _ _))).bind fun _ m1 _ => proceeds_pure _ m1
  · refine (proceeds_modifyEngine (.single (.moved _ _ _))).bind fun _ m2 _ => Proceeds.get ?_
    split
    · exact proceeds_note _ _ m2
    · exact proceeds_pure () m2

lemma proceeds_compileCall (word : Text) (id : FuncId) (m : Machine) :
    Proceeds (compileCall word id) m := by
  refine Proceeds.get ?_
  split
  · exact proceeds_throw _ m
  · next target f hopened =>
    split_ifs
    · exact proceeds_report _ m
    · refine (proceeds_note _ _ m).bind fun _ m1 hm1 => ?_
      cases hm1
      exact proceeds_emit _ (by rw [engine_noted]; exact defining_of_opened? hopened)

lemma proceeds_compileLiteral (n : Int32) (m : Machine) : Proceeds (compileLiteral n) m := by
  refine Proceeds.get ?_
  split
  · exact proceeds_throw _ m
  · next target f hopened =>
    refine (proceeds_note _ _ m).bind fun _ m1 hm1 => ?_
    cases hm1
    exact proceeds_emit _ (by rw [engine_noted]; exact defining_of_opened? hopened)

lemma proceeds_dispatch (word : Text) (m : Machine) : Proceeds (dispatch word) m := by
  refine Proceeds.get ?_
  split
  · rw [dispatchFunction]
    split_ifs
    · refine (proceeds_note _ _ m).bind fun _ m1 _ => ?_
      exact (proceeds_call _ m1).bind fun _ m2 _ => proceeds_pure _ m2
    · refine Proceeds.get ?_
      split
      · exact (proceeds_call _ m).bind fun _ m1 _ => proceeds_pure _ m1
      · exact (proceeds_compileCall _ _ m).bind fun _ m1 _ => proceeds_pure _ m1
  · rw [dispatchNumber]
    split
    · refine Proceeds.get ?_
      dsimp only
      split
      · refine (proceeds_modifyEngine (.single (.stack _))).bind fun _ m1 _ => ?_
        exact proceeds_pure _ m1
      · exact (proceeds_compileLiteral _ m).bind fun _ m1 _ => proceeds_pure _ m1
    · dsimp only
      split_ifs
      · refine (proceeds_note _ _ m).bind fun _ m1 _ => ?_
        exact (proceeds_report _ m1).bind fun _ m2 _ => proceeds_pure _ m2
      · exact (proceeds_report _ m).bind fun _ m1 _ => proceeds_pure _ m1

lemma proceeds_read (m : Machine) : Proceeds read m := by
  refine (proceeds_nextWord m).bind fun word m1 _ => ?_
  cases word with
  | none => exact proceeds_pure _ m1
  | some word => exact proceeds_dispatch word m1

lemma proceeds_prompt (m : Machine) : Proceeds prompt m := by
  intro htidy
  have hread := proceeds_read m htidy
  induction m using prompt.induct with
  | case1 m hrunning m1 hok ih =>
      rw [hok] at hread
      rw [prompt_again hrunning hok]
      exact hread.trans (ih (hread.tidy htidy) (proceeds_read m1 (hread.tidy htidy)))
  | case2 m hrunning m1 hok =>
      rw [hok] at hread
      rw [prompt_ended hrunning hok]
      exact hread
  | case3 m hrunning i m1 herror =>
      rw [herror] at hread
      rw [prompt_broken hrunning herror]
      exact hread
  | case4 m hrunning =>
      rw [prompt_stopped hrunning]
      exact .refl

/-! ## Instructions -/

lemma Proceeds.attempt {act : Act α} (h : Proceeds act m) : Proceeds (attempt act) m := by
  intro htidy
  have hact := h htidy
  rw [ColonMachine.attempt]
  split
  · next heq => rw [heq] at hact; exact hact
  · next heq => rw [heq] at hact; exact hact
  · next heq => rw [heq] at hact; exact hact

lemma proceeds_readQuietly (m : Machine) : Proceeds readQuietly m := by
  refine Proceeds.get ?_
  refine (proceeds_modify (changes_input { m.input with prompting := false } id)).bind
    fun _ m1 _ => ?_
  refine (proceeds_read m1).attempt.bind fun outcome m2 _ => ?_
  refine (proceeds_modify (changes_input { m2.input with prompting := m.input.prompting } id)).bind
    fun _ m3 _ => ?_
  cases outcome with
  | ok _ => exact proceeds_pure () m3
  | error what => exact proceeds_throw _ m3

lemma proceeds_fetch (m : Machine) : Proceeds fetch m := by
  refine Proceeds.get ?_
  dsimp only
  split
  · exact (proceeds_modifyEngine (.single (.moved _ _ _))).bind fun _ m1 _ => proceeds_pure _ m1
  · exact (proceeds_modifyEngine (.single (.moved _ _ _))).bind fun _ m1 _ => proceeds_throw _ m1

lemma proceeds_execute (op : Opcode) (m : Machine) : Proceeds (execute op) m := by
  cases op with
  | call => exact (proceeds_fetch m).bind fun _ m1 _ => proceeds_call _ m1
  | jump =>
      refine (proceeds_fetch m).bind fun _ m1 _ => ?_
      exact proceeds_modifyEngine (.single (.moved _ _ _))
  | prompt => exact proceeds_prompt m
  | push =>
      refine (proceeds_fetch m).bind fun _ m1 _ => ?_
      exact proceeds_modifyEngine (.single (.stack _))
  | read => exact proceeds_readQuietly m
  | ret => exact proceeds_ret m

lemma proceeds_step (m : Machine) : Proceeds step m := by
  refine (proceeds_fetch m).bind fun _ m1 _ => (proceeds_note _ _ m1).bind fun _ m2 _ => ?_
  split
  · exact proceeds_execute _ m2
  · exact Proceeds.get (proceeds_throw _ m2)

lemma proceeds_recover (what : Fault) (m : Machine) : Proceeds (recover what) m := by
  refine (proceeds_note _ _ m).bind fun _ m1 _ => (proceeds_report _ m1).bind fun _ m2 _ => ?_
  exact proceeds_modifyEngine (.tail (.single (.moved bootId (-1) [])) (.mode _))

lemma proceeds_tick (context : Context) (m : Machine) : Proceeds (tick context) m := by
  have hask : ∀ m, Proceeds (haltIf context.ask.1 >>= fun _ => pure context.ask.2) m := fun m =>
    (proceeds_haltIf _ m).bind fun _ m1 _ => proceeds_pure _ m1
  refine (proceeds_step m).attempt.bind fun outcome m1 _ => ?_
  cases outcome with
  | ok _ => exact hask m1
  | error what => exact (proceeds_recover what m1).bind fun _ m2 _ => hask m2

/-! ## Runs -/

/-- **What executing instructions amounts to**, however many they are and however they end. -/
lemma changes_exec (fuel : ℕ) (context : Context) (htidy : m.input.Tidy) :
    Changes m (Result.machine (exec fuel context m)) := by
  induction fuel generalizing m context with
  | zero => exact .refl
  | succ fuel ih =>
      cases hrunning : m.engine.running with
      | false =>
          rw [exec_stopped hrunning]
          exact .refl
      | true =>
          have htick := proceeds_tick context m htidy
          cases hresult : tick context m with
          | ok context' m1 =>
              rw [hresult] at htick
              rw [exec_tick hrunning hresult]
              exact htick.trans (ih context' (htick.tidy htidy))
          | error i m1 =>
              rw [hresult] at htick
              rw [exec_broken hrunning hresult]
              exact htick

lemma changes_indent (on : Bool) (m : Machine) : Changes m (m.indent on) := .single (.trace _)

lemma proceeds_runOut (fuel : ℕ) (context : Context) (m : Machine) :
    Proceeds (runOut fuel context) m := by
  refine Proceeds.bind (fun htidy => ?_) fun stopped m1 _ => ?_
  · have hexec := changes_exec fuel context (m := m.indent true) htidy
    rw [execIndented]
    cases hresult : exec fuel context (m.indent true) <;> rw [hresult] at hexec
    · exact (changes_indent true m).trans (hexec.trans (changes_indent false _))
    · exact (changes_indent true m).trans (hexec.trans (changes_indent false _))
  · dsimp only
    split_ifs
    · refine (proceeds_speak (changes_console .flush)).bind fun _ m2 _ => ?_
      exact (proceeds_haltIf _ m2).bind fun _ m3 _ => proceeds_pure _ m3
    · exact proceeds_pure _ m1

lemma changes_settle (failure : Failure) (m : Machine) : Changes m (settle failure m).2 := by
  rw [settle]
  dsimp only
  split
  · exact .refl
  · next reason _ =>
    have hnoted := changes_noted (utf8 "!") (fun _ => reason.wording) m
    split_ifs
    · exact hnoted
    · exact .refl
    · exact hnoted
    · exact .refl

/-- **What a whole run amounts to.** -/
lemma changes_run (fuel : ℕ) (context : Context) (htidy : m.input.Tidy) :
    Changes m (run fuel context m).2 := by
  have hrun := proceeds_runOut fuel context m htidy
  rw [run]
  cases hresult : runOut fuel context m with
  | ok stopped m1 =>
      rw [hresult] at hrun
      cases stopped with
      | true => exact hrun
      | false => exact hrun
  | error i m1 =>
      rw [hresult] at hrun
      dsimp only
      split
      · exact hrun
      · exact hrun.trans (changes_settle _ m1)

end Machine

end ColonMachine
