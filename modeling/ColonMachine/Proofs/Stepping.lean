import ColonMachine.Proofs.Invariant

/-!
# What comes next

In a sound machine, the next instruction is one of five, and the next word at the top level is dealt
with in one of seven ways.  `stepping` and `dispatching` list them, each with what it does to the
machine, so that whatever is to be shown of every instruction or of every word is shown by going
through a list, and neither the bytes of the code nor the interpreter are looked into again.

`Becomes` leaves the trace open.  Notes are taken everywhere and read nowhere.
-/

namespace ColonMachine

/-! ## The next instruction -/

namespace Machine

/-- What the next instruction of a machine can be, and what executing it comes to. -/
inductive Stepping (m : Machine) : Prop where
  /-- The top level loop reads a line of words. -/
  | line {m1 : Machine} (hfn : m.engine.fn = bootId) (hpc : m.engine.pc = -1)
      (hframes : m.engine.frames = []) (hm1 : Becomes m { m.engine with pc := 0 } m1)
      (hat : m1.engine.control = onPrompt) (hstep : step m = prompt m1)
  /-- The top level loop begins again. -/
  | jump {m1 : Machine} (hfn : m.engine.fn = bootId) (hpc : m.engine.pc = 0)
      (hframes : m.engine.frames = []) (hm1 : Becomes m { m.engine with pc := -1 } m1)
      (hstep : step m = .ok () m1)
  | back {m1 : Machine} {past : List Instr} {frame : Frame} {frames : List Frame}
      (hspot : Spot m.engine.dict m.engine.fn m.engine.pc past [])
      (hframes : m.engine.frames = frame :: frames)
      (hback : Active m.engine.dict frame.fn frame.pc frames)
      (hm1 : Becomes m { m.engine with fn := frame.fn, pc := frame.pc, frames := frames } m1)
      (hstep : step m = .ok () m1)
  | push {m1 : Machine} {past rest : List Instr} {n : Code}
      (hspot : Spot m.engine.dict m.engine.fn m.engine.pc past (.push n :: rest))
      (hm1 : Becomes m { m.engine with
        pc := m.engine.pc + 2, stack := n.toInt32 :: m.engine.stack } m1)
      (hstep : step m = .ok () m1)
  | call {m1 : Machine} {past rest : List Instr} {callee : Code} {f : Function}
      (hspot : Spot m.engine.dict m.engine.fn m.engine.pc past (.call callee :: rest))
      (hget : m.engine.dict.get? (Code.callee callee) = some f)
      (hcall : Callable m.engine.dict (Code.callee callee) f)
      (hend : Code.callee callee ≠ endDefineId)
      (hm1 : Becomes m { m.engine with pc := m.engine.pc + 2 } m1)
      (hstep : step m = Machine.call (Code.callee callee) m1)

lemma stepping {m : Machine} (h : Sound m.engine) : Stepping m := by
  rcases h.active.inv with ⟨hfn, hframes, hpc | hpc⟩ |
      ⟨past, rest, frame, frames, hspot, hframes, hback⟩
  · obtain ⟨m1, hm1, hstep⟩ := step_prompt ⟨h.get?_boot, hfn, hpc⟩
    refine .line hfn hpc hframes hm1 ?_ hstep
    rw [hm1.engine, Engine.control, hfn, hframes]
    rfl
  · obtain ⟨m1, hm1, hstep⟩ := step_jump ⟨h.get?_boot, hfn, hpc⟩
    exact .jump hfn hpc hframes hm1 hstep
  · rcases rest with _ | ⟨callee | n, rest⟩
    · obtain ⟨m1, hm1, hstep⟩ := step_return hspot hframes
      exact .back hspot hframes hback hm1 hstep
    · obtain ⟨m1, hm1, hstep⟩ := step_call hspot
      obtain ⟨f, hget, hcall, hend⟩ := h.callee hspot (h.untouched_of_word hspot.finished.ne_boot)
      exact .call hspot hget hcall hend hm1 hstep
    · obtain ⟨m1, hm1, hstep⟩ := step_push hspot
      exact .push hspot hm1 hstep

variable {m m' : Machine} {id : FuncId} {f : Function}

/-! ## The next word -/

/-- The operand of a call names the function that was meant. -/
lemma callee_ofCallee {n : ℤ} (hlow : 0 ≤ n) (hhigh : n ≤ 255) :
    Code.callee (Code.ofCallee n) = n := by
  have h : (BitVec.ofInt 8 n).toNat = (n % 256).toNat := BitVec.toNat_ofInt n
  change (((BitVec.ofInt 8 n).toNat : ℕ) : ℤ) = n
  omega

lemma lookup?_eq_some {d : Dictionary} {word : Text} :
    lookup? d word = some (id, f) ↔ d.find? word = some id ∧ d.get? id = some f := by
  simp only [lookup?, Option.bind_eq_bind, Option.bind_eq_some_iff, Option.pure_def,
    Option.some.injEq, Prod.mk.injEq]
  constructor
  · rintro ⟨_, hfind, _, hget, rfl, rfl⟩
    exact ⟨hfind, hget⟩
  · rintro ⟨hfind, hget⟩
    exact ⟨id, hfind, f, hget, rfl, rfl⟩

lemma get?_of_lookup? {d : Dictionary} {word : Text} (h : lookup? d word = some (id, f)) :
    d.get? id = some f ∧ f.name = word := by
  obtain ⟨hfind, hget⟩ := lookup?_eq_some.mp h
  obtain ⟨g, hg, hname⟩ := Dictionary.get?_of_find? hfind
  rw [hget] at hg
  cases hg
  exact ⟨hget, hname⟩

lemma lookup?_name (h : Sound m.engine) (hget : m.engine.dict.get? id = some f) :
    lookup? m.engine.dict f.name = some (id, f) :=
  lookup?_eq_some.mpr ⟨h.find?_name hget, hget⟩

lemma dispatch_some {word : Text} (hlookup : lookup? m.engine.dict word = some (id, f)) :
    dispatch word m = dispatchFunction word id f m := by
  rw [dispatch, get_bind]
  simp only [hlookup]

lemma dispatch_none {word : Text} (hlookup : lookup? m.engine.dict word = none) :
    dispatch word m = dispatchNumber word m := by
  rw [dispatch, get_bind]
  simp only [hlookup]

lemma dispatch_of_call {word : Text} (hlookup : lookup? m.engine.dict word = some (id, f))
    (himmediate : f.immediate = false) (hmode : m.engine.mode = .execute) :
    dispatch word m = (call id >>= fun _ => pure f.isNative) m := by
  have hdispatch := dispatch_some hlookup
  rw [dispatchFunction, if_neg (by simp [himmediate]), get_bind] at hdispatch
  simp only [hmode] at hdispatch
  exact hdispatch

lemma dispatch_of_number {word : Text} {n : Int32} (hlookup : lookup? m.engine.dict word = none)
    (hread : word.readCell = .ok n) (hmode : m.engine.mode = .execute) :
    dispatch word m
      = .ok true { m with engine := { m.engine with stack := n :: m.engine.stack } } := by
  have hdispatch := dispatch_none hlookup
  rw [dispatchNumber] at hdispatch
  simp only [hread] at hdispatch
  rw [get_bind] at hdispatch
  simp only [hmode] at hdispatch
  exact hdispatch

/-- No word is the name of the top level loop. -/
lemma ne_boot_of_isWord (h : Sound m.engine) {word : Text} (hword : word.IsWord)
    (hget : m.engine.dict.get? id = some f) (hname : f.name = word) : id ≠ bootId := by
  rintro rfl
  rw [h.get?_boot] at hget
  cases hget
  have : Text.hasSeparator Dictionary.bootName = false := by
    rw [← hword.unbroken, ← hname]
    rfl
  exact absurd this (by decide)

/-- Of the functions that are immediate there is only one, and it closes the open definition. -/
lemma eq_endDefine_of_immediate (h : Sound m.engine) (hget : m.engine.dict.get? id = some f)
    (hboot : id ≠ bootId) (himmediate : f.immediate = true) :
    f.code = [] ∧ f.native = some (.primitive .endDefine) := by
  by_cases hid : id < firstUserId
  · obtain ⟨hcode, hend, p, hp, hprimitive⟩ := h.builtin_cases hid hboot hget
    exact ⟨hcode, by rw [hp, hprimitive.mpr (hend.mp himmediate)]⟩
  · have hword := h.words id f (Int.not_lt.mp hid) hget
    rw [hword.immediate] at himmediate
    cases himmediate

lemma ne_endDefine_of_not_immediate (h : Sound m.engine) (hget : m.engine.dict.get? id = some f)
    (himmediate : f.immediate = false) : id ≠ endDefineId := by
  rintro rfl
  have := (h.builtin_cases (by decide) (by decide) hget).2.1.mpr rfl
  rw [himmediate] at this
  cases this

/-- What can become of the word that was read last, at the top level. -/
inductive Dispatching (m : Machine) (word : Text) : Prop where
  /-- It is `;`, which closes the open definition. -/
  | close {m1 : Machine} {id : FuncId} {f : Function}
      (hlookup : lookup? m.engine.dict word = some (id, f)) (himmediate : f.immediate = true)
      (hcode : f.code = []) (hnative : f.native = some (.primitive .endDefine))
      (hm1 : Becomes m m.engine m1)
      (hdispatch : dispatch word m = (primitive .endDefine >>= fun _ => pure true) m1)
  | run {id : FuncId} {f : Function} (hlookup : lookup? m.engine.dict word = some (id, f))
      (himmediate : f.immediate = false) (hmode : m.engine.mode = .execute)
      (hcall : Callable m.engine.dict id f)
      (hdispatch : dispatch word m = (Machine.call id >>= fun _ => pure f.isNative) m)
  | compile {m1 : Machine} {id target : FuncId} {f : Function}
      (hlookup : lookup? m.engine.dict word = some (id, f)) (himmediate : f.immediate = false)
      (hmode : m.engine.mode = .compile) (hdefining : m.engine.defining = some target)
      (hid : id ≤ maxCallId) (hbelow : Instr.Below target [.call (Code.ofCallee id)])
      (hm1 : Becomes m { m.engine with
        dict := m.engine.dict.emit target (Instr.call (Code.ofCallee id)).bytes } m1)
      (hdispatch : dispatch word m = .ok true m1)
  /-- No call can be compiled. -/
  | refuse {id : FuncId} {f : Function} (hlookup : lookup? m.engine.dict word = some (id, f))
      (himmediate : f.immediate = false) (hmode : m.engine.mode = .compile) (hid : maxCallId < id)
      (hdispatch : dispatch word m = (report (utf8 "Error: `" ++ word ++
        utf8 "` cannot be compiled, function id " ++ Text.ofInt id ++ utf8 " out of range") >>=
          fun _ => pure true) m)
  /-- It is a number, which is pushed. -/
  | number {n : Int32} (hlookup : lookup? m.engine.dict word = none) (hread : word.readCell = .ok n)
      (hmode : m.engine.mode = .execute)
      (hdispatch : dispatch word m
        = .ok true { m with engine := { m.engine with stack := n :: m.engine.stack } })
  /-- It is a number, which is compiled. -/
  | literal {m1 : Machine} {n : Int32} {target : FuncId}
      (hlookup : lookup? m.engine.dict word = none) (hread : word.readCell = .ok n)
      (hmode : m.engine.mode = .compile) (hdefining : m.engine.defining = some target)
      (hm1 : Becomes m { m.engine with
        dict := m.engine.dict.emit target (Instr.push n.toInt8).bytes } m1)
      (hdispatch : dispatch word m = .ok true m1)
  | unknown {m1 : Machine} {why : Text.NumberFault} (hlookup : lookup? m.engine.dict word = none)
      (hread : word.readCell = .error why) (hm1 : Becomes m m.engine m1)
      (hdispatch : dispatch word m = (report (utf8 "Error: `" ++ word ++
        utf8 "` not a function or a number") >>= fun _ => pure true) m1)

lemma compileCall_eq (word : Text) {target : FuncId} (h : Sound m.engine)
    (hdefining : m.engine.defining = some target) (hid : id ≤ maxCallId) :
    ∃ m1, Becomes m { m.engine with
        dict := m.engine.dict.emit target (Instr.call (Code.ofCallee id)).bytes } m1 ∧
      compileCall word id m = .ok () m1 := by
  obtain ⟨f, -, hopened⟩ := h.opened? hdefining
  set m1 := noted (utf8 "compile") (fun _ => f.name ++ utf8 " call " ++ word) m with hm1
  refine ⟨{ m1 with engine := { m1.engine with
    dict := m1.engine.dict.emit target [Opcode.call.code, Code.ofCallee id] } }, ⟨?_, ?_, ?_⟩, ?_⟩
  · simp only [hm1, engine_noted]
    rfl
  · exact input_noted ..
  · exact console_noted ..
  · rw [compileCall, get_bind]
    simp only [hopened, if_neg (Int.not_lt.mpr hid)]
    rfl

lemma compileLiteral_eq {n : Int32} {target : FuncId} (h : Sound m.engine)
    (hdefining : m.engine.defining = some target) :
    ∃ m1, Becomes m { m.engine with
        dict := m.engine.dict.emit target (Instr.push n.toInt8).bytes } m1 ∧
      compileLiteral n m = .ok () m1 := by
  obtain ⟨f, -, hopened⟩ := h.opened? hdefining
  set m1 := noted (utf8 "compile") (fun _ =>
      if n.toInt8.toInt32 = n then f.name ++ utf8 " pushnum " ++ Text.ofInt n.toInt8.toInt
      else f.name ++ utf8 " truncating literal " ++ Text.ofInt n.toInt ++ utf8 " to " ++
        Text.ofInt n.toInt8.toInt) m with hm1
  refine ⟨{ m1 with engine := { m1.engine with
    dict := m1.engine.dict.emit target [Opcode.push.code, n.toInt8] } }, ⟨?_, ?_, ?_⟩, ?_⟩
  · simp only [hm1, engine_noted]
    rfl
  · exact input_noted ..
  · exact console_noted ..
  · rw [compileLiteral, get_bind]
    simp only [hopened]
    rfl

lemma dispatching_function (h : Sound m.engine) {word : Text} (hword : word.IsWord)
    (hlookup : lookup? m.engine.dict word = some (id, f)) : Dispatching m word := by
  obtain ⟨hget, hname⟩ := get?_of_lookup? hlookup
  have hboot := ne_boot_of_isWord h hword hget hname
  have hdispatch := dispatch_some hlookup
  rw [dispatchFunction] at hdispatch
  cases himmediate : f.immediate with
  | true =>
      obtain ⟨hcode, hnative⟩ := eq_endDefine_of_immediate h hget hboot himmediate
      set m1 := noted (utf8 "run") (fun _ => utf8 "immediate " ++ word) m with hm1
      have hbecomes : Becomes m m.engine m1 := (becomes_engine m m.engine).noted _ _
      refine .close hlookup himmediate hcode hnative hbecomes ?_
      have hget1 : m1.engine.dict.get? id = some f := by rw [hm1, engine_noted]; exact hget
      rw [hdispatch, if_pos himmediate, bind_of_ok (show note _ _ m = .ok () m1 from rfl),
        bind_apply, bind_apply, call_primitive hget1 hcode hnative, Function.isNative, hcode]
      rfl
  | false =>
      cases hmode : m.engine.mode with
      | execute =>
          have hcall := h.callable (h.untouched_of_execute hmode) hboot hget
          exact .run hlookup himmediate hmode hcall (dispatch_of_call hlookup himmediate hmode)
      | compile =>
          rw [if_neg (by simp [himmediate]), get_bind] at hdispatch
          obtain ⟨target, htarget⟩ := Option.isSome_iff_exists.mp (h.mode.mp hmode)
          obtain ⟨hlow, hlt⟩ := Dictionary.bounds_of_get? hget
          simp only [hmode] at hdispatch
          by_cases hid : id ≤ maxCallId
          · obtain ⟨m1, hm1, hcompile⟩ := compileCall_eq word h htarget hid
            refine .compile hlookup himmediate hmode htarget hid ?_ hm1
              (hdispatch.trans (bind_of_ok hcompile))
            intro callee hmem
            cases List.mem_singleton.mp hmem
            rw [callee_ofCallee hlow hid]
            rw [← (h.newest target htarget).2] at hlt
            exact ⟨Int.lt_add_one_iff.mp hlt, hboot,
              ne_endDefine_of_not_immediate h hget himmediate⟩
          · have hlarge := Int.not_le.mp hid
            obtain ⟨g, -, hopened⟩ := h.opened? htarget
            refine .refuse hlookup himmediate hmode hlarge (hdispatch.trans ?_)
            rw [bind_apply, bind_apply, compileCall, get_bind]
            simp only [hopened, if_pos hlarge]

lemma dispatching_number (h : Sound m.engine) {word : Text}
    (hlookup : lookup? m.engine.dict word = none) : Dispatching m word := by
  have hdispatch := dispatch_none hlookup
  rw [dispatchNumber] at hdispatch
  cases hread : word.readCell with
  | ok n =>
      cases hmode : m.engine.mode with
      | execute =>
          exact .number hlookup hread hmode (dispatch_of_number hlookup hread hmode)
      | compile =>
          obtain ⟨target, htarget⟩ := Option.isSome_iff_exists.mp (h.mode.mp hmode)
          obtain ⟨m1, hm1, hcompile⟩ := compileLiteral_eq (n := n) h htarget
          simp only [hread] at hdispatch
          rw [get_bind] at hdispatch
          simp only [hmode] at hdispatch
          exact .literal hlookup hread hmode htarget hm1 (hdispatch.trans (bind_of_ok hcompile))
  | error why =>
      simp only [hread] at hdispatch
      by_cases hrange : why = .outOfRange
      · rw [if_pos hrange] at hdispatch
        exact .unknown hlookup hread ((becomes_engine m m.engine).noted _ _) hdispatch
      · rw [if_neg hrange] at hdispatch
        exact .unknown hlookup hread (becomes_engine m m.engine) hdispatch

lemma dispatching {m : Machine} (hm : Sound m.engine) {word : Text} (hword : word.IsWord) :
    Dispatching m word := by
  cases hlookup : lookup? m.engine.dict word with
  | some entry => exact dispatching_function hm hword hlookup
  | none => exact dispatching_number hm hlookup

/-! ## Loops -/

lemma read_of_word {m1 : Machine} {w : Text} {more : Bool} (hnext : nextWord m = .ok (some w) m1)
    (hdispatch : dispatch w m1 = .ok more m') : read m = .ok more m' :=
  (bind_of_ok hnext).trans hdispatch

lemma prompt_again (hrunning : m.engine.running = true) (hread : read m = .ok true m') :
    prompt m = prompt m' := by
  rw [prompt, if_pos hrunning, hread]

lemma prompt_ended (hrunning : m.engine.running = true) (hread : read m = .ok false m') :
    prompt m = .ok () m' := by
  rw [prompt, if_pos hrunning, hread]

lemma prompt_broken {i : Interrupt} (hrunning : m.engine.running = true)
    (hread : read m = .error i m') : prompt m = .error i m' := by
  rw [prompt, if_pos hrunning, hread]

lemma prompt_stopped (hrunning : ¬m.engine.running = true) : prompt m = .ok () m := by
  rw [prompt, if_neg hrunning]

lemma prompt_congr (hrunning : m.engine.running = true) (hrunning' : m'.engine.running = true)
    (h : read m = read m') : prompt m = prompt m' := by
  rcases hread : read m' with ⟨_ | _, m1⟩ | ⟨i, m1⟩ <;> rw [hread] at h
  · rw [prompt_ended hrunning h, prompt_ended hrunning' hread]
  · rw [prompt_again hrunning h, prompt_again hrunning' hread]
  · rw [prompt_broken hrunning h, prompt_broken hrunning' hread]

lemma tick_of_ok (hstep : step m = .ok () m') : tick .background m = .ok .background m' := by
  rw [tick, bind_of_ok (a := Except.ok ()) (by rw [attempt, hstep])]
  rfl

/-- After a fault, what comes next is to recover from it. -/
lemma tick_of_fault {what : Fault} (hstep : step m = .error (.fault what) m') :
    tick .background m = (recover what >>= fun _ => pure .background) m' := by
  rw [tick, bind_of_ok (a := Except.error what) (by rw [attempt, hstep])]
  rfl

lemma tick_of_halt {cause : Option Failure} (hstep : step m = .error (.halt cause) m') :
    tick .background m = .error (.halt cause) m' := by
  rw [tick, bind_of_error (by rw [attempt, hstep])]

lemma exec_tick {context context' : Context} (hrunning : m.engine.running = true)
    (htick : tick context m = .ok context' m') (fuel : ℕ) :
    exec (fuel + 1) context m = exec fuel context' m' := by
  simp [exec, hrunning, htick]

lemma exec_broken {context : Context} {i : Interrupt} (hrunning : m.engine.running = true)
    (htick : tick context m = .error i m') (fuel : ℕ) :
    exec (fuel + 1) context m = .error i m' := by
  simp [exec, hrunning, htick]

lemma exec_stopped {context : Context} (hrunning : m.engine.running = false) (fuel : ℕ) :
    exec fuel context m = .ok true m := by
  cases fuel <;> simp [exec, hrunning]

end Machine

end ColonMachine
