import ColonMachine.Proofs.Changes
import ColonMachine.Proofs.Lines
import ColonMachine.Proofs.Termination

/-!
# Faults are contained

A fault costs the rest of the line it came up on, and the calls in progress.  Nothing else is lost.

* **Before**: a fault is raised by a call, of a native or of a word, and the call leaves the machine
  as it was (`fault_of_prompt`, `fault_of_step`); so what the words and instructions before it did
  stands.
* **Handling**: one line is written, the rest of the current line is dropped, and the engine goes
  back to the beginning of the top level loop with everything else in it as it was
  (`recover_of_sound`).
* **After**: lines are read on where they were left, blank ones are passed over, and the first word
  of the first other line is dispatched next (`Waiting.exists_reads`); if there is none, nothing is
  (`Waiting.halts`).

All of this takes an output that does not fail, which no action changes (`Changes.heard`).  Prompts
may be shown.
-/

namespace ColonMachine

/-! ## The console through a session -/

lemma Utterance.heard {c₀ c c' : Console} {text : Text} (h : Utterance c c') (hc₀ : c₀.Firm)
    (hc : c₀.Heard text c) : ∃ text', c₀.Heard text' c' := by
  cases h with
  | hand manner piece =>
      obtain ⟨c1, hhand, h1⟩ := hc.hand hc₀ manner piece
      rw [hhand]
      exact ⟨_, h1⟩
  | flush =>
      obtain ⟨c1, hflush, h1, -⟩ := hc.flush hc₀
      rw [hflush]
      exact ⟨_, h1⟩
  | settle =>
      obtain ⟨c1, hsettle, h1⟩ := hc.settle hc₀
      rw [hsettle]
      exact ⟨_, h1⟩
  | reported => exact ⟨text, hc.route, hc.settled, hc.prompts, hc.style, hc.outlets⟩

namespace Machine

variable {c₀ : Console} {m m' m1 m₀ : Machine} {w : Text} {id : FuncId} {f : Function}
    {what : Fault}

lemma Changes.heard (h : Changes m m') (hc₀ : c₀.Firm) (hm : ∃ text, c₀.Heard text m.console) :
    ∃ text, c₀.Heard text m'.console := by
  refine h.keeps (P := fun m => ∃ text, c₀.Heard text m.console) hm ?_
  rintro a b ⟨text, ha⟩ hchange
  cases hchange with
  | console hutter => exact hutter.heard hc₀ ha
  | _ => exact ⟨text, ha⟩

/-! ## Before the fault -/

/-- A call that faults leaves the machine as it was. -/
lemma unchanged_of_call (hm : m.input.Tidy) (hget : m.engine.dict.get? id = some f)
    (hcall : Callable m.engine.dict id f) (h : call id m = .error (.fault what) m1) : m1 = m := by
  rcases (call_effect hm hget hcall).of_error h with ⟨cause, hhalt⟩ | ⟨_, -, -, rfl⟩
  · cases hhalt
  · rfl

lemma error_of_bind_pure {α β : Type} {act : Act α} {b : β} {i : Interrupt}
    (h : (act >>= fun _ => pure b) m = .error i m1) : act m = .error i m1 := by
  cases hact : act m with
  | ok _ m2 =>
      rw [bind_of_ok hact] at h
      cases h
  | error _ m2 =>
      rw [bind_of_error hact] at h
      cases h
      rfl

lemma not_fault_of_report {message : Text} :
    (report message >>= fun _ => pure true) m ≠ .error (.fault what) m1 := by
  intro h
  obtain ⟨⟨cause, hhalt⟩, -⟩ := (talks_report message m).of_error (error_of_bind_pure h)
  cases hhalt

/-- A word that faults is one that is run, and it is its call that faults. -/
lemma fault_of_dispatch (hm : m.IsSound) (hword : w.IsWord)
    (h : dispatch w m = .error (.fault what) m1) :
    m1 = m ∧ ∃ id f, lookup? m.engine.dict w = some (id, f) ∧
      dispatch w m = (call id >>= fun _ => pure f.isNative) m ∧
      call id m = .error (.fault what) m := by
  cases dispatching hm.engine hword with
  | @close m2 _ _ _ _ _ _ _ hdispatch =>
      obtain ⟨m3, -, hend⟩ := endDefine_eq m2
      rw [hdispatch.trans (bind_of_ok hend)] at h
      cases h
  | @run id f hlookup _ _ hcall hdispatch =>
      have hcalled := error_of_bind_pure (hdispatch.symm.trans h)
      obtain rfl := unchanged_of_call hm.input (get?_of_lookup? hlookup).1 hcall hcalled
      exact ⟨rfl, id, f, hlookup, hdispatch, hcalled⟩
  | compile _ _ _ _ _ _ _ hdispatch => rw [hdispatch] at h; cases h
  | refuse _ _ _ _ hdispatch => exact absurd (hdispatch.symm.trans h) not_fault_of_report
  | number _ _ _ hdispatch => rw [hdispatch] at h; cases h
  | literal _ _ _ _ _ hdispatch => rw [hdispatch] at h; cases h
  | unknown _ _ _ hdispatch => exact absurd (hdispatch.symm.trans h) not_fault_of_report

/-- Executing the next instruction of `m`, the machine comes to call the function `id`, and is `a`
then.  At the top level, the words read before that one have been completed. -/
inductive ComesToCall (m : Machine) : FuncId → Machine → Prop where
  | code {callee : Code} {a : Machine}
      (ha : Becomes m { m.engine with pc := m.engine.pc + 2 } a)
      (hstep : step m = call (Code.callee callee) a) : ComesToCall m (Code.callee callee) a
  | word {p q a : Machine} {w : Text} {id : FuncId} {f : Function}
      (hp : Becomes m { m.engine with pc := 0 } p) (hstep : step m = prompt p)
      (hbefore : Relation.ReflTransGen NextWord p q) (hrunning : q.engine.running = true)
      (hnext : nextWord q = .ok (some w) a) (hlookup : lookup? a.engine.dict w = some (id, f))
      (hdispatch : dispatch w a = (call id >>= fun _ => pure f.isNative) a) : ComesToCall m id a

/-- The induction is over the words read before the one that faults. -/
lemma fault_of_prompt (hm : m.IsSound) (hat : m.engine.control = onPrompt)
    (h : prompt m = .error (.fault what) m1) :
    ∃ q w id f, Relation.ReflTransGen NextWord m q ∧ q.engine.running = true ∧
      nextWord q = .ok (some w) m1 ∧ lookup? m1.engine.dict w = some (id, f) ∧
      dispatch w m1 = (call id >>= fun _ => pure f.isNative) m1 ∧
      call id m1 = .error (.fault what) m1 := by
  induction m using prompt.induct with
  | case1 m hrunning m2 hread ih =>
      obtain ⟨hm2, hat2⟩ := (isSound_read hm hat).of_ok hread
      rw [prompt_again hrunning hread] at h
      obtain ⟨q, w, id, f, hbefore, hrest⟩ := ih hm2 (hat2 rfl) h
      exact ⟨q, w, id, f, .head ⟨hrunning, hread⟩ hbefore, hrest⟩
  | case2 m hrunning m2 hread =>
      rw [prompt_ended hrunning hread] at h
      cases h
  | case3 m hrunning i m2 hread =>
      rw [prompt_broken hrunning hread] at h
      cases h
      rw [read] at hread
      cases hnext : nextWord m with
      | error i m3 =>
          obtain ⟨⟨cause, rfl⟩, -⟩ := (talks_nextWord m).of_error hnext
          rw [bind_of_error hnext] at hread
          cases hread
      | ok word m3 =>
          rw [bind_of_ok hnext] at hread
          cases word with
          | none => cases hread
          | some w =>
              have hm3 := talks_nextWord.isSound hm hnext
              obtain ⟨rfl, id, f, hlookup, hdispatch, hcall⟩ :=
                fault_of_dispatch hm3 (isWord_of_nextWord hm.input hnext) hread
              exact ⟨m, w, id, f, .refl, hrunning, hnext, hlookup, hdispatch, hcall⟩
  | case4 m hrunning =>
      rw [prompt_stopped hrunning] at h
      cases h

/-- **An instruction that faults** comes to a call, which faults and changes nothing. -/
lemma fault_of_step (hm : m.IsSound) (hrunning : m.engine.running = true)
    (h : step m = .error (.fault what) m1) :
    m1.engine.running = true ∧
      ∃ id, ComesToCall m id m1 ∧ call id m1 = .error (.fault what) m1 := by
  cases stepping hm.engine with
  | line hfn hpc hframes hp hat hstep =>
      have hsound := hp.isSound hm (hm.engine.top hfn hframes (Or.inr rfl))
      obtain ⟨q, w, id, f, hbefore, hq, hnext, hlookup, hdispatch, hcall⟩ :=
        fault_of_prompt hsound hat (hstep.symm.trans h)
      refine ⟨?_, id, .word hp hstep hbefore hq hnext hlookup hdispatch, hcall⟩
      rw [((talks_nextWord q).of_ok hnext).1, hq]
  | jump _ _ _ _ hstep => rw [hstep] at h; cases h
  | back _ _ _ _ hstep => rw [hstep] at h; cases h
  | push _ _ hstep => rw [hstep] at h; cases h
  | @call a past rest callee f hspot hget hcall _ ha hstep =>
      have hdict : a.engine.dict = m.engine.dict := by rw [ha.engine]
      rw [← hdict] at hget hcall
      have hcalled := hstep.symm.trans h
      have htidy : a.input.Tidy := by rw [ha.input]; exact hm.input
      obtain rfl := unchanged_of_call htidy hget hcall hcalled
      exact ⟨by rw [ha.engine]; exact hrunning, _, .code ha hstep, hcalled⟩

/-! ## Handling it -/

lemma recover_of_sound (hc : m.console.Firm) (hm : Sound m.engine) (what : Fault) :
    ∃ m', recover what m = .ok () m' ∧
      m'.engine = { m.engine with frames := [], fn := bootId, pc := -1 } ∧
      m'.input.buffer = some [] ∧ m'.input.unread = m.input.unread ∧
      m.console.Heard (m.console.style (utf8 "Error: " ++ what.message) ++ [Text.newline])
        m'.console := by
  obtain ⟨m1, hm1, hnote⟩ : ∃ m1, Becomes m m.engine m1 ∧
      recover what m = (report (utf8 "Error: " ++ what.message) >>= fun _ =>
        modifyEngine fun e => { e with
          frames := [], fn := bootId, pc := -1
          mode := if e.defining.isNone then .execute else e.mode }) m1 :=
    ⟨_, (becomes_engine m m.engine).noted _ _, rfl⟩
  have hheard1 : m.console.Heard [] m1.console := by
    rw [hm1.console]
    exact hc.heard
  obtain ⟨m2, hreport, hengine2, hbuffer, hunread, hheard⟩ :=
    report_heard hc hheard1 (utf8 "Error: " ++ what.message)
  have hengine : m2.engine = m.engine := hengine2.trans hm1.engine
  have hmode : (if m.engine.defining.isNone then .execute else m.engine.mode) = m.engine.mode := by
    have hcompile := hm.mode
    cases hdefining : m.engine.defining with
    | none => cases hmode : m.engine.mode <;> simp_all
    | some target => rfl
  refine ⟨_, hnote.trans (bind_of_ok hreport), ?_, hbuffer, by rw [hunread, hm1.input], hheard⟩
  simp only [hengine, hmode]

lemma tick_of_recover {m2 : Machine} (hstep : step m = .error (.fault what) m1)
    (hrecover : recover what m1 = .ok () m2) (context : Context) :
    tick context m = (haltIf context.ask.1 >>= fun _ => pure context.ask.2 : Act Context) m2 := by
  rw [tick, bind_of_ok (a := Except.error what) (by rw [attempt, hstep])]
  exact bind_of_ok hrecover

/-! ## After it -/

lemma announced_heard (hc₀ : c₀.Firm) : Announced fun c => ∃ text, c₀.Heard text c := by
  rintro mode src c ⟨text, hc⟩
  obtain ⟨more, c', hannounce, hc', -⟩ := hc.announce_prompting hc₀ mode src
  exact ⟨c', hannounce, _, hc'⟩

namespace Waiting

variable {P : Console → Prop} (hP : Announced P) {line : List Text}
  {lines rest blanks : List (List Text)}
include hP

/-- **Lines are read on where they were left.** -/
lemma exists_reads (h : Waiting P (blanks ++ (w :: line) :: rest) m)
    (hblank : ∀ b ∈ blanks, b = []) :
    ∃ m', Reads w m m' ∧ m'.input.buffer = some line ∧ m'.input.unread = rest := by
  obtain ⟨m1, hover, h1⟩ := h.skip hP hblank
  obtain ⟨m', hnext, hbuffer, hunread, -⟩ := h1.word hP
  exact ⟨m', hover.reads h.running (.word h1.running hnext), hbuffer, hunread⟩

/-- If only blank lines are left, the session ends without another word. -/
lemma halts {a : Machine} (h : Waiting P lines m) (hblank : ∀ b ∈ lines, b = [])
    (hstep : step a = prompt m) (hrunning : a.engine.running = true) :
    ∃ fuel cause m', exec fuel .background a = .error (.halt cause) m' ∧ m'.engine = m.engine := by
  rw [← List.append_nil lines] at h
  obtain ⟨m1, hover, h1⟩ := h.skip hP hblank
  obtain ⟨a', ⟨n, hexec⟩, hstep', hrunning'⟩ := hover.leads hstep hrunning h.running
  obtain ⟨failure, m2, hnext, -⟩ := h1.ended hP
  cases hhalt : nextWord m1 with
  | ok word m3 =>
      rw [hnext] at hhalt
      exact absurd hhalt (broken_halt _ _ _ _)
  | error i m3 =>
      obtain ⟨⟨cause, rfl⟩, hengine⟩ := (talks_nextWord m1).of_error hhalt
      have hread : read m1 = .error (.halt cause) m3 := bind_of_error hhalt
      refine ⟨1 + n, cause, m3, ?_, hengine.trans hover.engine⟩
      rw [hexec]
      exact exec_broken hrunning' (tick_of_halt (hstep'.trans (prompt_broken h1.running hread))) 0

end Waiting

/-- **Faults are contained.**  The machine `m1` that a fault leaves is the one before the call that
faulted, and from it the run goes on with `m2`. -/
theorem fault_contained {settings : List Setting} (hnew : create settings = .ok m₀)
    (hsinks : m₀.console.Reliable) (hreach : m₀.Reaches m) (hrunning : m.engine.running = true)
    (hstep : step m = .error (.fault what) m1) :
    (∃ id, ComesToCall m id m1 ∧ call id m1 = .error (.fault what) m1) ∧
    ∃ m2, recover what m1 = .ok () m2 ∧
      (∀ context, tick context m
        = (haltIf context.ask.1 >>= fun _ => pure context.ask.2 : Act Context) m2) ∧
      m2.engine = { m1.engine with frames := [], fn := bootId, pc := -1 } ∧
      (∀ id, m1.engine.defining = some id → m2.engine.mode = .compile) ∧
      m1.console.Heard (m₀.console.style (utf8 "Error: " ++ what.message) ++ [Text.newline])
        m2.console ∧
      m2.input.buffered = [] ∧ m2.input.unread = m1.input.unread ∧
      (∀ blanks w line rest, m1.input.unread = blanks ++ (w :: line) :: rest →
        (∀ b ∈ blanks, b = []) → ∃ m3 m4, step m2 = prompt m3 ∧
          Becomes m2 { m2.engine with pc := 0 } m3 ∧ Reads w m3 m4 ∧
          m4.input.buffer = some line ∧ m4.input.unread = rest) ∧
      ((∀ b ∈ m1.input.unread, b = []) → ∃ fuel cause m3,
        exec fuel .background m2 = .error (.halt cause) m3 ∧
          m3.engine = { m2.engine with pc := 0 }) := by
  have hfresh := fresh_create hnew
  have hfirm := firm_create hnew hsinks
  have hm := isSound_of_reaches hfresh.isSound hreach
  -- the console can still be relied on
  obtain ⟨text, hheard⟩ : ∃ text, m₀.console.Heard text m1.console := by
    obtain ⟨fuel, context, stopped, hexec⟩ := hreach
    have hindent : (m₀.indent true).input.Tidy := hfresh.isSound.input
    have hchanges := changes_exec fuel context hindent
    rw [hexec] at hchanges
    have hlast := proceeds_step m hm.input
    rw [hstep] at hlast
    exact Changes.heard (hchanges.trans hlast) hfirm ⟨[], hfirm.heard⟩
  obtain ⟨hrunning1, id, hcomes, hcall⟩ := fault_of_step hm hrunning hstep
  obtain ⟨_, -, -, hm1⟩ : ∃ what', Interrupt.fault what = .fault what' ∧ what'.IsOrdinary ∧
      m1.IsSound := by
    rcases (isSound_step hm).of_error hstep with ⟨cause, hhalt⟩ | h
    · cases hhalt
    · exact h
  obtain ⟨m2, hrecover, hengine, hbuffer, hunread, hline⟩ :=
    recover_of_sound (hheard.firm hfirm) hm1.engine what
  rw [hheard.style] at hline
  have hm2 := (isSound_recover hm1 what).of_ok hrecover
  obtain ⟨m3, hm3, hprompt⟩ := step_prompt (m := m2)
    ⟨hm2.engine.get?_boot, by rw [hengine], by rw [hengine]⟩
  have hsound3 : m3.IsSound :=
    hm3.isSound hm2 (hm2.engine.top (by rw [hengine]) (by rw [hengine]) (Or.inr rfl))
  have hheard3 : ∃ text, m1.console.Heard text m3.console := ⟨_, by rw [hm3.console]; exact hline⟩
  have hrunning3 : m3.engine.running = true := by rw [hm3.engine, hengine]; exact hrunning1
  obtain ⟨m4, hover, hwaiting⟩ := lineOver_of_mark
    (P := fun c => ∃ text, m1.console.Heard text c) hsound3 (by rw [hm3.engine, hengine]; rfl)
    hrunning3 hheard3 (by rw [hm3.input, hbuffer])
  have hover := Relation.ReflTransGen.single hover
  rw [hm3.input, hunread] at hwaiting
  have hannounced := announced_heard (hheard.firm hfirm)
  refine ⟨⟨id, hcomes, hcall⟩, m2, hrecover, tick_of_recover hstep hrecover, hengine, ?_, hline,
    by simp [Source.buffered, hbuffer], hunread, ?_, ?_⟩
  · intro target htarget
    rw [hengine]
    exact hm1.engine.mode.mpr (by simp [htarget])
  · intro blanks w line rest hrest hblank
    rw [hrest] at hwaiting
    obtain ⟨m5, hreads, hinput⟩ := hwaiting.exists_reads hannounced hblank
    exact ⟨m3, m5, hprompt, hm3, LinesOver.reads hover hrunning3 hreads, hinput⟩
  · intro hblank
    have hrunning2 : m2.engine.running = true := by rw [hengine]; exact hrunning1
    obtain ⟨m5, ⟨n, hexec⟩, hstep5, hrunning5⟩ := LinesOver.leads hover hprompt hrunning2 hrunning3
    obtain ⟨fuel, cause, m6, hhalts, hengine6⟩ := hwaiting.halts hannounced hblank hstep5 hrunning5
    refine ⟨fuel + n, cause, m6, (hexec fuel).trans hhalts, ?_⟩
    rw [hengine6, LinesOver.engine hover, hm3.engine]

/-- The second word of a line faults, and a blank line follows. -/
theorem fault_contained_of_plus :
    ∃ m₀ m1, create [.written [] (.ok (utf8 "1 + 2\n\n3 .\n")), .output (.memory [])] = .ok m₀ ∧
      m₀.console.Reliable ∧ m₀.Reaches (m₀.indent true) ∧
      step (m₀.indent true) = .error (.fault .stackUnderflow) m1 ∧
      ∃ m2, recover .stackUnderflow m1 = .ok () m2 ∧ m2.engine.stack = [1] ∧
        m1.console.Heard (utf8 "Error: " ++ Fault.message .stackUnderflow ++ [Text.newline])
          m2.console ∧
        ∃ m3 m4, step m2 = prompt m3 ∧ Reads (utf8 "3") m3 m4 ∧
          m4.input.buffer = some [utf8 "."] := by
  obtain ⟨m₀, hnew⟩ : ∃ m₀, create [.written [] (.ok (utf8 "1 + 2\n\n3 .\n")),
      .output (.memory [])] = .ok m₀ := ⟨_, rfl⟩
  have hsinks : m₀.console.Reliable := by
    cases hnew
    exact Console.reliable_of_memory rfl rfl
  have hreach : m₀.Reaches (m₀.indent true) := ⟨0, .background, _, rfl⟩
  obtain ⟨m1, hstep, hstack, hunread, hrunning, hstyle⟩ :
      ∃ m1, step (m₀.indent true) = .error (.fault .stackUnderflow) m1 ∧ m1.engine.stack = [1] ∧
        m1.input.unread = [[]] ++ [utf8 "3", utf8 "."] :: [] ∧
        (m₀.indent true).engine.running = true ∧ m₀.console.style = id := by
    cases hnew
    exact ⟨_, (prompt_again rfl rfl).trans (prompt_broken rfl rfl), rfl, rfl, rfl, rfl⟩
  obtain ⟨-, m2, hrecover, -, hengine, -, hheard, -, -, hnext, -⟩ :=
    fault_contained hnew hsinks hreach hrunning hstep
  obtain ⟨m3, m4, hprompt, -, hreads, hbuffer, -⟩ := hnext _ _ _ _ hunread (by simp)
  rw [hstyle] at hheard
  exact ⟨m₀, m1, hnew, hsinks, hreach, hstep, m2, hrecover, by rw [hengine]; exact hstack, hheard,
    m3, m4, hprompt, hreads, hbuffer⟩

end Machine

end ColonMachine
