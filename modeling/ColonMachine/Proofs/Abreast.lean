import ColonMachine.Proofs.Definitions
import ColonMachine.Proofs.View

/-!
# Machines that differ in their lines

Two machines are **level** if they have the same engine, have written the same, and have the same
words in front of them, however these are divided into lines.  They are **abreast** if besides both
are in the middle of a line.

An action is **in step** if machines that are abreast stay so, or are interrupted in the same way.
Only two kinds of action look at how a line ends: `see`, which takes no name from the next line, and
a diagnostic, which drops the rest of the line.  Where the ends of lines make a difference, one of
the two machines reports a diagnostic; so every action is in step unless one is reported
(`inStepUnless_dispatch`).
-/

namespace ColonMachine

/-- The words that can still be read, whatever lines they stand on. -/
def Source.rest (src : Source) : List Text := src.buffered ++ src.unread.flatten

/-- The name after `:` is the first word of what can still be read. -/
lemma Session.nextName?_flatten (line : List Text) (lines : List (List Text)) :
    match Session.nextName? line lines with
    | some (name, line', lines') => line ++ lines.flatten = name :: (line' ++ lines'.flatten)
    | none => line ++ lines.flatten = [] := by
  induction lines generalizing line with
  | nil => cases line <;> simp [nextName?]
  | cons next lines ih =>
      cases line with
      | nil => simpa [nextName?] using ih next
      | cons name line => simp [nextName?]

namespace Machine

variable {α β : Type} {c c' : Console} {a b a' b' : Machine} {e : Engine} {r r' : Result α}

lemma Shown.heard {s : Session} (h : Shown c a s) : c.Heard s.output a.console := by
  obtain ⟨output, hheard, rfl⟩ := h
  exact hheard

lemma Shown.rest {s : Session} (h : Shown c a s) : s.line ++ s.lines.flatten = a.input.rest := by
  rw [h.line, h.lines, Source.rest]

/-- The machines have the same engine and the same words in front of them, and have written the same
since their consoles were `c` and `c'`. -/
structure Level (c c' : Console) (a b : Machine) : Prop where
  engine : a.engine = b.engine
  rest : a.input.rest = b.input.rest
  output : ∃ text, c.Heard text a.console ∧ c'.Heard text b.console

structure Abreast (c c' : Console) (a b : Machine) : Prop extends Level c c' a b where
  left : a.input.buffer.isSome
  right : b.input.buffer.isSome

lemma Level.becomes (h : Level c c' a b) (ha : Becomes a e a') (hb : Becomes b e b') :
    Level c c' a' b' where
  engine := ha.engine.trans hb.engine.symm
  rest := by rw [ha.input, hb.input, h.rest]
  output := by rw [ha.console, hb.console]; exact h.output

lemma Abreast.becomes (h : Abreast c c' a b) (ha : Becomes a e a') (hb : Becomes b e b') :
    Abreast c c' a' b' :=
  ⟨h.toLevel.becomes ha hb, by rw [ha.input]; exact h.left, by rw [hb.input]; exact h.right⟩

/-! ## Actions in step -/

/-- The same has come of an action in both machines. -/
inductive Even (c c' : Console) : Result α → Result α → Prop where
  | ok (x : α) {a b : Machine} (h : Abreast c c' a b) : Even c c' (.ok x a) (.ok x b)
  | raised {i : Interrupt} {a b : Machine} (hi : ∀ cause, i ≠ .halt cause) (h : Level c c' a b) :
      Even c c' (.error i a) (.error i b)
  | halted {cause cause' : Option Failure} {a b : Machine} (h : Level c c' a b)
      (ha : a.console.Flushed) (hb : b.console.Flushed) :
      Even c c' (.error (.halt cause) a) (.error (.halt cause') b)

/-- An action was completed, and a diagnostic has left nothing of the line. -/
def Reported (r : Result α) : Prop :=
  ∃ x m, r = .ok x m ∧ m.input.buffer = some [] ∧ m.console.reported = true

def InStep (c c' : Console) (act : Act α) : Prop :=
  ∀ a b, Abreast c c' a b → Even c c' (act a) (act b)

def InStepUnless (c c' : Console) (act : Act α) : Prop :=
  ∀ a b, Abreast c c' a b → Even c c' (act a) (act b) ∨ Reported (act a) ∨ Reported (act b)

lemma InStep.weaken {act : Act α} (h : InStep c c' act) : InStepUnless c c' act :=
  fun a b hab => Or.inl (h a b hab)

lemma inStep_pure (x : α) : InStep c c' (pure x : Act α) := fun _ _ h => .ok x h

lemma inStep_throw {i : Interrupt} (hi : ∀ cause, i ≠ .halt cause) :
    InStep c c' (throw i : Act α) := fun _ _ h => .raised hi h.toLevel

lemma inStep_raise (what : Fault) : InStep c c' (raise what : Act α) := inStep_throw nofun

/-- The same has come of the first action in both machines; either it was completed, and the second
one follows, or that is what has come of both. -/
lemma Even.bind {act : Act α} {next : α → Act β} {R : Result β → Result β → Prop}
    (h : Even c c' (act a) (act b)) (heven : ∀ r r', Even c c' r r' → R r r')
    (hnext : ∀ x a' b', Abreast c c' a' b' → R (next x a') (next x b')) :
    R ((act >>= next) a) ((act >>= next) b) := by
  rw [bind_apply, bind_apply]
  generalize act a = ra at h
  generalize act b = rb at h
  cases h with
  | ok x hab => exact hnext x _ _ hab
  | raised hi hab => exact heven _ _ (.raised hi hab)
  | halted hab ha hb => exact heven _ _ (.halted hab ha hb)

lemma InStep.bind {act : Act α} {next : α → Act β} (h : InStep c c' act)
    (hnext : ∀ x, InStep c c' (next x)) : InStep c c' (act >>= next) :=
  fun a b hab => (h a b hab).bind (fun _ _ heven => heven) hnext

lemma InStep.bind_unless {act : Act α} {next : α → Act β} (h : InStep c c' act)
    (hnext : ∀ x, InStepUnless c c' (next x)) : InStepUnless c c' (act >>= next) := by
  intro a b hab
  exact (h a b hab).bind (R := fun r r' => Even c c' r r' ∨ Reported r ∨ Reported r')
    (fun _ _ heven => Or.inl heven) hnext

lemma Reported.bind_pure {act : Act α} {m : Machine} (h : Reported (act m)) (x : β) :
    Reported ((act >>= fun _ => pure x) m) := by
  obtain ⟨_, m', hact, hm'⟩ := h
  exact ⟨x, m', bind_of_ok hact, hm'⟩

lemma InStepUnless.bind_pure {act : Act α} (h : InStepUnless c c' act) (x : β) :
    InStepUnless c c' (act >>= fun _ => pure x) := by
  intro a b hab
  rcases h a b hab with heven | hreported | hreported
  · exact Or.inl (heven.bind (fun _ _ heven => heven) fun _ _ _ hab => .ok x hab)
  · exact Or.inr (Or.inl (hreported.bind_pure x))
  · exact Or.inr (Or.inr (hreported.bind_pure x))

/-- An action that looks at the machine, if it sees no more than the engine. -/
lemma inStep_get {next : Machine → Act β} (hsame : ∀ a b, a.engine = b.engine → next a = next b)
    (hnext : ∀ a, InStep c c' (next a)) : InStep c c' ((get : Act Machine) >>= next) := by
  intro a b hab
  rw [get_bind, get_bind, hsame a b hab.engine]
  exact hnext b a b hab

lemma inStepUnless_get {next : Machine → Act β} (hsame : ∀ a b, a.engine = b.engine →
    next a = next b) (hnext : ∀ a, InStepUnless c c' (next a)) :
    InStepUnless c c' ((get : Act Machine) >>= next) := by
  intro a b hab
  rw [get_bind, get_bind, hsame a b hab.engine]
  exact hnext b a b hab

lemma inStep_modifyEngine (f : Engine → Engine) : InStep c c' (modifyEngine f) := by
  intro a b hab
  refine .ok () (hab.becomes (becomes_engine a (f a.engine)) ?_)
  rw [hab.engine]
  exact becomes_engine b _

lemma inStep_note (mark : Text) (message : Machine → Text) : InStep c c' (note mark message) := by
  intro a b hab
  refine .ok () (hab.becomes ((becomes_engine a a.engine).noted _ _) ?_)
  rw [hab.engine]
  exact (becomes_engine b b.engine).noted _ _

section Steady

variable (hc : c.Steady) (hc' : c'.Steady)
include hc hc'

/-- An action that adds to the output and does nothing else. -/
lemma inStep_of_shown {act : Act Unit} {t : Text} (htalks : Talks act)
    (hact : ∀ {c₀ m s}, Console.Firm c₀ → Shown c₀ m s → ∃ m', act m = .ok () m' ∧
      Shown c₀ m' { s with output := s.output ++ t } ∧ m'.input = m.input) : InStep c c' act := by
  intro a b hab
  obtain ⟨text, ha, hb⟩ := hab.output
  obtain ⟨a', hok, hshown, hinput⟩ := hact hc.toFirm ⟨text, ha, rfl⟩
  obtain ⟨b', hok', hshown', hinput'⟩ := hact hc'.toFirm ⟨text, hb, rfl⟩
  rw [hok, hok']
  refine .ok () ⟨⟨?_, by rw [hinput, hinput', hab.rest], text ++ t, hshown.heard, hshown'.heard⟩,
    by rw [hinput]; exact hab.left, by rw [hinput']; exact hab.right⟩
  rw [((htalks a).of_ok hok).1, ((htalks b).of_ok hok').1, hab.engine]

lemma inStep_write (t : Text) : InStep c c' (write t) := by
  refine inStep_of_shown hc hc' (t := t) (talks_write t) fun hfirm hshown => ?_
  obtain ⟨m', hok, hm', hinput, -⟩ := write_shown hfirm hshown t
  exact ⟨m', hok, hm', hinput⟩

lemma inStep_print (t : Text) : InStep c c' (print t) :=
  inStep_of_shown hc hc' (talks_print t) fun hfirm hshown => print_shown hfirm hshown t

/-- The name after `:` is found over any number of lines, so it is the same. -/
lemma inStep_nextName : InStep c c' nextName := by
  intro a b hab
  obtain ⟨text, ha, hb⟩ := hab.output
  have hname := nextName_shown hc (m := a) ⟨text, ha, rfl⟩
  have hname' := nextName_shown hc' (m := b) ⟨text, hb, rfl⟩
  have hflat := Session.nextName?_flatten a.input.buffered a.input.unread
  have hflat' := Session.nextName?_flatten b.input.buffered b.input.unread
  have hrest : a.input.buffered ++ a.input.unread.flatten
      = b.input.buffered ++ b.input.unread.flatten := hab.rest
  rw [NameShown] at hname hname'
  simp only [session] at hname hname'
  rcases hfound : Session.nextName? a.input.buffered a.input.unread with _ | ⟨name, line, lines⟩
  all_goals rcases hfound' : Session.nextName? b.input.buffered b.input.unread with
    _ | ⟨name', line', lines'⟩
  all_goals
    rw [hfound] at hname hflat
    rw [hfound'] at hname' hflat'
    dsimp only at hname hname' hflat hflat'
    rw [hrest, hflat'] at hflat
  · obtain ⟨cause, a', hread, hshown, hflushed⟩ := hname
    obtain ⟨cause', b', hread', hshown', hflushed'⟩ := hname'
    have hengine := ((talks_nextName a).of_error hread).2
    have hengine' := ((talks_nextName b).of_error hread').2
    rw [hread, hread']
    refine .halted ⟨by rw [hengine, hengine', hab.engine], ?_, text, hshown.heard, hshown'.heard⟩
      hflushed hflushed'
    rw [← hshown.rest, ← hshown'.rest]
  · cases hflat
  · cases hflat
  · obtain ⟨a', hread, hbuffer, hshown⟩ := hname
    obtain ⟨b', hread', hbuffer', hshown'⟩ := hname'
    have hengine := ((talks_nextName a).of_ok hread).1
    have hengine' := ((talks_nextName b).of_ok hread').1
    rw [List.cons.injEq] at hflat
    obtain ⟨rfl, hflat⟩ := hflat
    rw [hread, hread']
    refine .ok _ ⟨⟨by rw [hengine, hengine', hab.engine], ?_, text, hshown.heard, hshown'.heard⟩,
      hbuffer, hbuffer'⟩
    rw [← hshown.rest, ← hshown'.rest]
    exact hflat.symm

omit hc' in
/-- A diagnostic can always be written. -/
lemma reported_report {text : Text} (ha : c.Heard text a.console) (message : Text) :
    Reported (report message a) := by
  obtain ⟨a', hreport, -⟩ := report_shown hc.toFirm ⟨text, ha, rfl⟩ message
  exact ⟨(), a', hreport, (line_of_report message).of_ok hreport⟩

omit hc' in
lemma inStepUnless_report (message : Text) : InStepUnless c c' (report message) := by
  intro a b hab
  obtain ⟨text, ha, -⟩ := hab.output
  exact Or.inr (Or.inl (reported_report hc ha message))

/-! ## Words -/

omit hc hc' in
lemma inStep_onStack (f : Stack → Except Fault Stack) : InStep c c' (onStack f) := by
  refine inStep_get (fun a b hab => by rw [hab]) fun a => ?_
  split
  · exact inStep_modifyEngine _
  · exact inStep_raise _

omit hc hc' in
lemma inStep_endDefine : InStep c c' endDefine := by
  intro a b hab
  obtain ⟨a', ha', hend⟩ := endDefine_eq a
  obtain ⟨b', hb', hend'⟩ := endDefine_eq b
  rw [hend, hend']
  refine .ok () (hab.becomes ha' ?_)
  rw [hab.engine]
  exact hb'

lemma inStepUnless_define : InStepUnless c c' define := by
  refine (inStep_modifyEngine _).bind_unless fun _ => (inStep_nextName hc hc').bind_unless
    fun name =>
    inStepUnless_get (fun a b hab => by rw [hab]) fun a => ?_
  split
  · exact (inStep_modifyEngine _).bind_unless fun _ => inStepUnless_report hc _
  · exact ((inStep_modifyEngine _).bind fun _ => inStep_note _ _).weaken

lemma inStepUnless_seeName (name : Text) : InStepUnless c c' (seeName name) := by
  refine inStepUnless_get (fun a b hab => by rw [hab]) fun a => ?_
  dsimp only
  split
  · exact inStepUnless_report hc _
  · exact (inStep_write hc hc' _).weaken

omit hc' in
/-- At the end of its line, `see` has no name to read. -/
lemma reported_see {text : Text} (ha : c.Heard text a.console)
    (hbuffer : a.input.buffer = some []) :
    Reported (see a) := by
  obtain ⟨a', hnext, -, hconsole, -⟩ := nextWord_of_mark hbuffer
  rw [see, bind_of_ok hnext]
  exact reported_report hc (by rw [hconsole]; exact ha) _

lemma inStepUnless_see : InStepUnless c c' see := by
  intro a b hab
  obtain ⟨text, ha, hb⟩ := hab.output
  have hleft := hab.left
  have hright := hab.right
  rcases hbuffer : a.input.buffer with _ | _ | ⟨w, line⟩
  · simp [hbuffer] at hleft
  · exact Or.inr (Or.inl (reported_see hc ha hbuffer))
  · rcases hbuffer' : b.input.buffer with _ | _ | ⟨w', line'⟩
    · simp [hbuffer'] at hright
    · exact Or.inr (Or.inr (reported_see hc' hb hbuffer'))
    · obtain ⟨a', hnext, hengine, hconsole, hinput⟩ := nextWord_of_word hbuffer
      obtain ⟨b', hnext', hengine', hconsole', hinput'⟩ := nextWord_of_word hbuffer'
      have hrest := hab.rest
      simp only [Source.rest, Source.buffered, hbuffer, hbuffer', Option.getD_some,
        List.cons_append, List.cons.injEq] at hrest
      obtain ⟨rfl, hrest⟩ := hrest
      rw [see, bind_of_ok hnext, bind_of_ok hnext']
      refine inStepUnless_seeName hc hc' w a' b' ⟨⟨by rw [hengine, hengine', hab.engine], ?_, text,
        ?_, ?_⟩, by rw [hinput]; rfl, by rw [hinput']; rfl⟩
      · rw [hinput, hinput']
        exact hrest
      · rw [hconsole]
        exact ha
      · rw [hconsole']
        exact hb

/-- **The primitives are in step**, unless a diagnostic is reported. -/
lemma inStepUnless_primitive (p : Primitive) : InStepUnless c c' (primitive p) := by
  cases p with
  | print =>
      refine inStepUnless_get (fun a b hab => by rw [hab]) fun a => ?_
      split
      · exact (inStep_print hc hc' _).weaken
      · exact (inStep_write hc hc' _).weaken
  | printStack =>
      exact inStepUnless_get (fun a b hab => by rw [hab]) fun _ => (inStep_write hc hc' _).weaken
  | words =>
      exact inStepUnless_get (fun a b hab => by rw [hab]) fun _ => (inStep_write hc hc' _).weaken
  | clear => exact (inStep_modifyEngine fun e => { e with stack := [] }).weaken
  | exit => exact ((inStep_note _ _).bind fun _ => inStep_modifyEngine _).weaken
  | define => exact inStepUnless_define hc hc'
  | endDefine => exact inStep_endDefine.weaken
  | see => exact inStepUnless_see hc hc'
  | _ => exact (inStep_onStack _).weaken

lemma inStepUnless_native (n : Native) : InStepUnless c c' (native n) := by
  cases n with
  | primitive p => exact inStepUnless_primitive hc hc' p
  | noop => exact (inStep_pure ()).weaken
  | push n => exact (inStep_modifyEngine fun e => { e with stack := n :: e.stack }).weaken
  | fail text => exact (inStep_raise _).weaken
  | panic payload => exact (inStep_throw (i := .panic payload) nofun).weaken
  | abandon => exact (inStep_throw (i := .abandon) nofun).weaken

omit hc hc' in
lemma inStep_pushFrame (frame : Frame) : InStep c c' (pushFrame frame) := by
  refine inStep_get (fun a b hab => by rw [hab]) fun a => ?_
  dsimp only
  split
  · exact inStep_raise _
  · exact inStep_modifyEngine _

lemma inStepUnless_call (id : FuncId) : InStepUnless c c' (call id) := by
  refine inStepUnless_get (fun a b hab => by rw [hab]) fun a => ?_
  dsimp only
  split
  · exact (inStep_raise _).weaken
  · split
    · split
      · exact inStepUnless_native hc hc' _
      · exact (inStep_pure ()).weaken
    · exact ((inStep_pushFrame _).bind fun _ => (inStep_note _ _).bind fun _ =>
        inStep_modifyEngine _).weaken

omit hc' in
lemma inStepUnless_compileCall (word : Text) (id : FuncId) :
    InStepUnless c c' (compileCall word id) := by
  refine inStepUnless_get (fun a b hab => by rw [hab]) fun a => ?_
  split
  · exact (inStep_raise _).weaken
  · split
    · exact inStepUnless_report hc _
    · exact ((inStep_note _ _).bind fun _ => inStep_modifyEngine _).weaken

lemma inStepUnless_dispatchFunction (word : Text) (id : FuncId) (f : Function) :
    InStepUnless c c' (dispatchFunction word id f) := by
  rw [dispatchFunction]
  split
  · exact (inStep_note _ _).bind_unless fun _ => (inStepUnless_call hc hc' id).bind_pure _
  · refine inStepUnless_get (fun a b hab => by rw [hab]) fun a => ?_
    split
    · exact (inStepUnless_call hc hc' id).bind_pure _
    · exact (inStepUnless_compileCall hc word id).bind_pure true

omit hc hc' in
lemma inStep_compileLiteral (n : Int32) : InStep c c' (compileLiteral n) := by
  refine inStep_get (fun a b hab => by rw [hab]) fun a => ?_
  split
  · exact inStep_raise _
  · exact (inStep_note _ _).bind fun _ => inStep_modifyEngine _

omit hc' in
lemma inStepUnless_dispatchNumber (word : Text) : InStepUnless c c' (dispatchNumber word) := by
  rw [dispatchNumber]
  split
  · refine inStepUnless_get (fun a b hab => by rw [hab]) fun a => ?_
    dsimp only
    split
    · exact ((inStep_modifyEngine _).bind fun _ => inStep_pure true).weaken
    · exact ((inStep_compileLiteral _).bind fun _ => inStep_pure true).weaken
  · dsimp only
    split
    · exact (inStep_note _ _).bind_unless fun _ => (inStepUnless_report hc _).bind_pure true
    · exact (inStepUnless_report hc _).bind_pure true

/-- **Words are in step**, unless a diagnostic is reported. -/
lemma inStepUnless_dispatch (word : Text) : InStepUnless c c' (dispatch word) := by
  refine inStepUnless_get (fun a b hab => by rw [hab]) fun a => ?_
  split
  · exact inStepUnless_dispatchFunction hc hc' _ _ _
  · exact inStepUnless_dispatchNumber hc _

end Steady

end Machine

end ColonMachine
