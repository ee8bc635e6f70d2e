import ColonMachine.Proofs.Termination
import ColonMachine.Proofs.View

/-!
# The machine evaluates the language

A run of the machine ends as the direct evaluation of its input does: with the same output, data
stack, dictionary, mode, open definition and running flag (`run_evaluates`).

Every machine between two instructions stands for an evaluation that is still to be done: what is
left of the word being executed, then what is left of its caller, and so on along the return stack,
and then the rest of the input.  `Session.unwind` evaluates the first part, and `Session.concluded`
the second.  Executing one instruction does not change the outcome of that evaluation
(`shows_step`), so at the end of the run, when nothing is left to be done, the machine shows the
outcome itself.
-/

namespace ColonMachine

/-! ## Evaluating what is left of calls in progress -/

namespace Session

variable {dress : Text → Text} {call' : FuncId → Eval Unit} {s s' : Session} {first : Item}
  {others body : List Item} {outer : List (List Item)} {room : ℕ}

/-- Evaluates what is left of several functions, of which each was called by the next one. -/
def unwind (dress : Text → Text) : (room : ℕ) → List (List Item) → Eval Unit
  | _, [] => pure ()
  | room, body :: outer => do
    items (call dress room) body
    unwind dress (room + 1) outer

lemma items_cons (hrunning : s.running = true) :
    items call' (first :: others) s = (item call' first >>= fun _ => items call' others) s := by
  change (if s.running = true then (item call' first >>= fun _ => items call' others)
    else pure () : Eval Unit) s = _
  rw [if_pos hrunning]

lemma items_stopped (h : s.running = false) : items call' body s = .ok () s := by
  cases body with
  | nil => rfl
  | cons first others =>
      change (if s.running = true then (item call' first >>= fun _ => items call' others)
        else pure () : Eval Unit) s = _
      rw [h]
      rfl

lemma unwind_stopped (h : s.running = false) : unwind dress room (body :: outer) s = .ok () s := by
  induction outer generalizing room body with
  | nil => rw [unwind, bind_of_ok (items_stopped h)]; rfl
  | cons next outer ih => rw [unwind, bind_of_ok (items_stopped h), ih]

lemma unwind_next (hrunning : s.running = true) :
    unwind dress room ((first :: others) :: outer) s
      = (item (call dress room) first >>= fun _ => unwind dress room (others :: outer)) s := by
  rw [unwind, unwind, bind_apply, bind_apply, items_cons hrunning, bind_apply]
  cases item (call dress room) first s with
  | ok _ s1 => simp only [bind_apply]
  | error stop s1 => rfl

lemma unwind_finish :
    unwind dress room ([.finish] :: outer) s = unwind dress (room + 1) outer s := by
  have hitems : items (call dress room) [.finish] s = .ok () s := by
    cases hrunning : s.running with
    | false => exact items_stopped hrunning
    | true => rw [items_cons hrunning]; rfl
  rw [unwind, bind_of_ok hitems]

/-! ## Calls -/

variable {id : FuncId} {f : Function}

lemma invoke_primitive {compiled : List Item → Eval Unit} {p : Primitive}
    (hget : s.dict.get? id = some f) (hcode : f.code = [])
    (hnative : f.native = some (.primitive p)) :
    invoke dress compiled id s = primitive dress p s := by
  rw [invoke, bind_of_ok (show (get : Eval Session) s = .ok s s from rfl)]
  simp [hget, Function.isNative, hcode, hnative]

lemma invoke_empty {compiled : List Item → Eval Unit} (hget : s.dict.get? id = some f)
    (hcode : f.code = []) (hnative : f.native = none) :
    invoke dress compiled id s = .ok () s := by
  rw [invoke, bind_of_ok (show (get : Eval Session) s = .ok s s from rfl)]
  simp only [hget, Function.isNative, hcode, hnative, List.isEmpty_nil, if_true]
  rfl

lemma invoke_word {compiled : List Item → Eval Unit} {body : List Instr}
    (hbody : s.dict.Finished id body) :
    invoke dress compiled id s = compiled (body.map Instr.item ++ [.finish]) s := by
  obtain ⟨-, f, hget, hcode⟩ := hbody
  rw [invoke, bind_of_ok (show (get : Eval Session) s = .ok s s from rfl), ← Instr.items_assemble,
    ← hcode]
  simp [hget, Function.isNative, hcode]

lemma call_primitive {p : Primitive} (hget : s.dict.get? id = some f) (hcode : f.code = [])
    (hnative : f.native = some (.primitive p)) : call dress room id s = primitive dress p s := by
  cases room with
  | zero => rw [call, invoke_primitive hget hcode hnative]
  | succ room => rw [call, invoke_primitive hget hcode hnative]

lemma call_empty (hget : s.dict.get? id = some f) (hcode : f.code = [])
    (hnative : f.native = none) :
    call dress room id s = .ok () s := by
  cases room with
  | zero => rw [call, invoke_empty hget hcode hnative]
  | succ room => rw [call, invoke_empty hget hcode hnative]

/-- What is left to be evaluated of a word, when these instructions are left to be executed. -/
def listed (rest : List Instr) : List Item := rest.map Instr.item ++ [.finish]

lemma call_full {body : List Instr} (hbody : s.dict.Finished id body) :
    call dress 0 id s = .error (.fault .returnOverflow) s := by
  rw [call, invoke_word hbody]
  rfl

lemma call_word {body : List Instr} (hbody : s.dict.Finished id body) :
    call dress (room + 1) id s = items (call dress room) (listed body) s := by
  rw [call, invoke_word hbody, listed]

/-! ## Words -/

variable {limit : ℕ} {w : Text}

lemma word_of_some (hlookup : Machine.lookup? s.dict w = some (id, f)) :
    word dress limit w s = (if f.immediate || s.mode == Mode.execute then call dress limit id
      else if maxCallId < id then
        complain dress (utf8 "Error: `" ++ w ++ utf8 "` cannot be compiled, function id " ++
          Text.ofInt id ++ utf8 " out of range")
      else append [Opcode.call.code, Code.ofCallee id] : Eval Unit) s := by
  rw [word, bind_of_ok (show (get : Eval Session) s = .ok s s from rfl), hlookup]

lemma word_of_none (hlookup : Machine.lookup? s.dict w = none) :
    word dress limit w s = (match w.readCell with
      | .ok n =>
        match s.mode with
        | .execute => push n
        | .compile => append [Opcode.push.code, n.toInt8]
      | .error _ => complain dress (utf8 "Error: `" ++ w ++ utf8 "` not a function or a number") :
        Eval Unit) s := by
  rw [word, bind_of_ok (show (get : Eval Session) s = .ok s s from rfl)]
  cases hread : w.readCell with
  | error why => simp only [hlookup]
  | ok n => cases hmode : s.mode <;> simp only [hlookup]

end Session

/-! ## Where a machine stands -/

/-- What is left of the calls in progress: `id` is being executed at `pc`, and `frames` lead back to
the top level loop. -/
inductive Chain (d : Dictionary) : FuncId → ℤ → List Frame → List (List Item) → Prop where
  | top (pc : ℤ) : Chain d bootId pc [] []
  | word {id : FuncId} {pc : ℤ} {past rest : List Instr} {frame : Frame} {frames : List Frame}
      {outer : List (List Item)} (hspot : Spot d id pc past rest)
      (houter : Chain d frame.fn frame.pc frames outer) :
      Chain d id pc (frame :: frames) (Session.listed rest :: outer)

/-- The counter tells which instructions are left. -/
lemma Spot.unique {d : Dictionary} {id : FuncId} {pc : ℤ} {past rest past' rest' : List Instr}
    (h : Spot d id pc past rest) (h' : Spot d id pc past' rest') : rest = rest' := by
  obtain ⟨⟨-, f, hget, hcode⟩, hpc⟩ := h
  obtain ⟨⟨-, f', hget', hcode'⟩, hpc'⟩ := h'
  rw [hget] at hget'
  cases hget'
  have hbody := Instr.assemble_injective (List.append_cancel_right (hcode.symm.trans hcode'))
  exact (List.append_inj hbody (by omega)).2

namespace Chain

variable {d d' : Dictionary} {id : FuncId} {pc : ℤ} {frames : List Frame} {chain : List (List Item)}

lemma mono (h : Chain d id pc frames chain)
    (hd : ∀ id body, d.Finished id body → d'.Finished id body) : Chain d' id pc frames chain := by
  induction h with
  | top pc => exact .top pc
  | word hspot _ ih => exact .word (hspot.mono (hd _)) ih

lemma inv {past rest : List Instr} (h : Chain d id pc frames chain)
    (hspot : Spot d id pc past rest) :
    ∃ frame frames' outer, frames = frame :: frames' ∧ chain = Session.listed rest :: outer ∧
      Chain d frame.fn frame.pc frames' outer := by
  cases h with
  | top => exact absurd rfl hspot.finished.ne_boot
  | word hspot' houter =>
      rw [hspot'.unique hspot]
      exact ⟨_, _, _, rfl, rfl, houter⟩

/-- One instruction later, in the same word. -/
lemma next {past rest : List Instr} {i : Instr} (h : Chain d id pc frames chain)
    (hspot : Spot d id pc past (i :: rest)) :
    ∃ outer, chain = Session.listed (i :: rest) :: outer ∧
      Chain d id (pc + 2) frames (Session.listed rest :: outer) := by
  obtain ⟨frame, frames', outer, rfl, rfl, houter⟩ := h.inv hspot
  exact ⟨outer, rfl, .word hspot.next houter⟩

lemma eq_nil (h : Chain d id pc [] chain) : chain = [] := by
  cases h
  rfl

end Chain

/-- No primitive touches a finished word, if it does not close a definition. -/
lemma Effect.finished {e e' : Engine} {p : Primitive} (h : Effect e p e') (hp : p ≠ .endDefine)
    (id : FuncId) (body : List Instr) (hbody : e.dict.Finished id body) :
    e'.dict.Finished id body := by
  cases h with
  | opened => exact hbody.add _
  | closed => exact absurd rfl hp
  | _ => exact hbody

namespace Machine

variable {c₀ : Console} {limit : ℤ} {goal s : Session} {m m' m1 : Machine}

/-- The machine shows the session `s`, the calls in progress are `chain`, and evaluating what is
left comes to `goal`. -/
structure Stands (c₀ : Console) (limit : ℤ) (goal : Session) (m : Machine)
    (chain : List (List Item)) (s : Session) : Prop where
  bound : m.engine.limit = limit
  shown : Shown c₀ m s
  calls : Chain m.engine.dict m.engine.fn m.engine.pc m.engine.frames chain
  /-- A word is executed only after it was read from a line. -/
  buffer : chain ≠ [] → m.input.buffer.isSome
  outcome : Session.concluded c₀.style limit.toNat
    (Session.unwind c₀.style m.engine.room chain s) = goal

/-- Evaluating what is left to be done by the machine comes to `goal`. -/
def Shows (c₀ : Console) (limit : ℤ) (goal : Session) (m : Machine) : Prop :=
  ∃ chain s, Stands c₀ limit goal m chain s

/-- How an action is interrupted whose outcome is `goal`: by a halt, which shows it, or by a fault
from which the evaluation recovers. -/
def Lands (c₀ : Console) (limit : ℤ) (goal : Session) (i : Interrupt) (m' : Machine) : Prop :=
  (∃ cause, i = .halt cause ∧ Shown c₀ m' goal ∧ m'.console.Flushed) ∨
    ∃ what s, i = .fault what ∧ m'.engine.limit = limit ∧ Shown c₀ m' s ∧
      Session.run c₀.style limit.toNat (s.rescued c₀.style what) = goal

/-- At the top level, what is left to be done is to go through the rest of the input. -/
lemma shows_top (hlimit : m.engine.limit = limit) (hfn : m.engine.fn = bootId)
    (hframes : m.engine.frames = []) (h : Shown c₀ m s)
    (hgoal : Session.run c₀.style limit.toNat s = goal) : Shows c₀ limit goal m := by
  refine ⟨[], s, hlimit, h, ?_, fun hne => absurd rfl hne, hgoal⟩
  rw [hfn, hframes]
  exact .top _

lemma Shows.top (h : Shows c₀ limit goal m) (hframes : m.engine.frames = []) :
    m.engine.limit = limit ∧ ∃ s, Shown c₀ m s ∧ Session.run c₀.style limit.toNat s = goal := by
  obtain ⟨chain, s, hlimit, hshown, hchain, -, hgoal⟩ := h
  rw [hframes] at hchain
  cases hchain.eq_nil
  exact ⟨hlimit, s, hshown, hgoal⟩

lemma Shows.stopped (h : Shows c₀ limit goal m) (hstopped : m.engine.running = false) :
    Shown c₀ m goal := by
  obtain ⟨chain, s, -, hshown, -, -, hgoal⟩ := h
  have hs : s.running = false := by rw [hshown.running, hstopped]
  have hunwind : Session.unwind c₀.style m.engine.room chain s = .ok () s := by
    cases chain with
    | nil => rfl
    | cons body outer => exact Session.unwind_stopped hs
  rw [hunwind, Session.concluded, Session.run_stopped hs] at hgoal
  rwa [← hgoal]

lemma top_of_onPrompt (hat : m.engine.control = onPrompt) :
    m.engine.fn = bootId ∧ m.engine.frames = [] :=
  ⟨congrArg Control.fn hat, congrArg Control.frames hat⟩

/-- An action that follows an evaluation goes wherever the evaluation does. -/
lemma Follows.does {act : Act Unit} {q : EStateM.Result Session.Stop Session Unit}
    {ok : Machine → Prop} (h : Follows c₀ (act m) q)
    (hlimit : ∀ what m', act m = .error (.fault what) m' → m'.engine.limit = limit)
    (hgoal : ∀ stop s, q = .error stop s → Session.concluded c₀.style limit.toNat q = goal)
    (hok : ∀ m' s, act m = .ok () m' → q = .ok () s → Shown c₀ m' s → m'.input.buffer.isSome →
      ok m') :
    Does act m (fun _ m' => ok m') (Lands c₀ limit goal) := by
  generalize hr : act m = r at h
  cases h with
  | ok h hbuffer => exact does_of_ok hr (hok _ _ hr rfl h hbuffer)
  | fault what h =>
      exact does_of_error hr (Or.inr ⟨what, _, rfl, hlimit what _ hr, h, hgoal _ _ rfl⟩)
  | halt cause h hflushed =>
      exact does_of_error hr (Or.inl ⟨cause, rfl, by rw [← hgoal _ _ rfl]; exact h, hflushed⟩)

section Steady

variable (hc₀ : c₀.Steady)
include hc₀

/-! ## Calls -/

lemma shows_primitive {p : Primitive} {chain : List (List Item)} (hm : m.IsSound)
    (hlimit : m.engine.limit = limit) (h : Shown c₀ m s) (hbuffer : m.input.buffer.isSome)
    (hchain : ∀ e, Effect m.engine p e →
      Chain e.dict m.engine.fn m.engine.pc m.engine.frames chain)
    (hgoal : Session.concluded c₀.style limit.toNat ((Session.primitive c₀.style p >>= fun _ =>
      Session.unwind c₀.style m.engine.room chain) s) = goal) :
    Does (primitive p) m (fun _ m' => Shows c₀ limit goal m') (Lands c₀ limit goal) := by
  have heffect := primitive_effect p m hm.input
  refine (follows_primitive hc₀ hm.engine h hbuffer p).does ?_ ?_ ?_
  · intro what m' hfault
    rcases heffect.of_error hfault with ⟨cause, hcause⟩ | ⟨_, _, _, rfl⟩
    · cases hcause
    · exact hlimit
  · intro stop s' hstop
    rw [bind_of_error hstop] at hgoal
    rw [hstop, hgoal]
  · intro m' s' hok hs' hm' hbuffer'
    obtain ⟨heffect, -⟩ := heffect.of_ok hok
    have hfn : m'.engine.fn = m.engine.fn := congrArg Control.fn heffect.control
    have hpc : m'.engine.pc = m.engine.pc := congrArg Control.pc heffect.control
    have hframes : m'.engine.frames = m.engine.frames := congrArg Control.frames heffect.control
    refine ⟨chain, s', heffect.limit.trans hlimit, hm', ?_, fun _ => hbuffer', ?_⟩
    · rw [hfn, hpc, hframes]
      exact hchain _ heffect
    · rw [bind_of_ok hs'] at hgoal
      rwa [Engine.room, heffect.limit, hframes]

/-- A call, from the top level or from a word, is what is to be evaluated next. -/
lemma shows_call {id : FuncId} {f : Function} {chain : List (List Item)} (hm : m.IsSound)
    (hlimit : m.engine.limit = limit) (hpos : 0 < limit) (h : Shown c₀ m s)
    (hbuffer : m.input.buffer.isSome) (hget : m.engine.dict.get? id = some f)
    (hcall : Callable m.engine.dict id f) (hend : id ≠ endDefineId)
    (hchain : Chain m.engine.dict m.engine.fn m.engine.pc m.engine.frames chain)
    (hgoal : Session.concluded c₀.style limit.toNat
      ((Session.call c₀.style m.engine.room id >>= fun _ =>
        Session.unwind c₀.style m.engine.room chain) s) = goal) :
    Does (Machine.call id) m (fun _ m' => Shows c₀ limit goal m') (Lands c₀ limit goal) := by
  have hsget : s.dict.get? id = some f := by rw [h.dict, hget]
  rw [bind_apply] at hgoal
  cases hcall with
  | primitive p hcode hnative hp =>
      rw [Session.call_primitive hsget hcode hnative] at hgoal
      have hkeeps := fun e (heffect : Effect m.engine p e) =>
        hchain.mono (heffect.finished fun heq => hend (hp heq))
      refine (shows_primitive hc₀ hm hlimit h hbuffer hkeeps ?_).congr
        (call_primitive hget hcode hnative)
      rw [bind_apply]
      exact hgoal
  | empty hcode hnative =>
      rw [Session.call_empty hsget hcode hnative] at hgoal
      exact does_of_ok (call_empty hget hcode hnative)
        ⟨chain, s, hlimit, h, hchain, fun _ => hbuffer, hgoal⟩
  | word body _ hbody =>
      have hsbody : s.dict.Finished id body := by rw [h.dict]; exact hbody
      by_cases hfull : m.engine.Full
      · -- the evaluation has no room left either, and faults with the machine
        have hroom : m.engine.room = 0 := by
          have := hfull.2
          rw [Engine.room]
          omega
        rw [hroom, Session.call_full hsbody] at hgoal
        exact does_of_error (call_full hbody hfull) (Or.inr ⟨_, s, rfl, hlimit, h, hgoal⟩)
      · obtain ⟨m', hm', hok⟩ := call_word hbody hfull
        have hroom : m.engine.room = (m.engine.entered id).room + 1 :=
          Engine.room_entered (by rw [hlimit]; exact hpos) hfull
        refine does_of_ok hok ⟨Session.listed body :: chain, s, ?_, h.congr hm' rfl, ?_, ?_, ?_⟩
        · rw [hm'.engine, ← hlimit]
          rfl
        · rw [hm'.engine]
          exact .word (Spot.start hbody) hchain
        · intro _
          rw [hm'.input]
          exact hbuffer
        · rw [hroom, Session.call_word hsbody] at hgoal
          rw [hm'.engine, Session.unwind, bind_apply]
          exact hgoal

/-! ## A word at the top level -/

lemma shows_report {message : Text} (hm1 : Becomes m m.engine m1)
    (hat : m.engine.control = onPrompt) (hlimit : m.engine.limit = limit) (h : Shown c₀ m s)
    (hgoal : Session.concluded c₀.style limit.toNat (Session.complain c₀.style message s) = goal) :
    Does (report message >>= fun _ => pure true) m1 (fun _ m' => Shows c₀ limit goal m')
      (Lands c₀ limit goal) := by
  obtain ⟨hfn, hframes⟩ := top_of_onPrompt hat
  rw [does_bind]
  have htalks := talks_report message m1
  rw [hm1.engine] at htalks
  refine (follows_report hc₀ (h.congr hm1 rfl) message).does ?_ (fun _ _ _ => hgoal) ?_
  · intro what m' hfault
    rw [(htalks.of_error hfault).2, hlimit]
  · intro m' s' hok hs' hm' _
    have hengine := (htalks.of_ok hok).1
    rw [hs'] at hgoal
    exact shows_top (by rw [hengine, hlimit]) (by rw [hengine, hfn]) (by rw [hengine, hframes]) hm'
      hgoal

omit hc₀ in
lemma shows_append {target : FuncId} {code : List Code} (hat : m.engine.control = onPrompt)
    (hlimit : m.engine.limit = limit) (hdefining : m.engine.defining = some target)
    (h : Shown c₀ m s)
    (hm1 : Becomes m { m.engine with dict := m.engine.dict.emit target code } m1)
    (hgoal : Session.concluded c₀.style limit.toNat (Session.append code s) = goal) :
    Shows c₀ limit goal m1 := by
  obtain ⟨hfn, hframes⟩ := top_of_onPrompt hat
  refine shows_top (by rw [hm1.engine, ← hlimit]) (by rw [hm1.engine, ← hfn])
    (by rw [hm1.engine, ← hframes]) ?_ hgoal
  obtain ⟨output, hheard, rfl⟩ := h
  refine ⟨output, by rw [hm1.console]; exact hheard, ?_⟩
  simp [session, hm1.engine, hm1.input, hdefining]

/-- A word at the top level is what is to be evaluated next. -/
lemma shows_dispatch {word : Text} (hm : m.IsSound) (hat : m.engine.control = onPrompt)
    (hword : word.IsWord) (hlimit : m.engine.limit = limit) (hpos : 0 < limit) (h : Shown c₀ m s)
    (hbuffer : m.input.buffer.isSome)
    (hgoal : Session.concluded c₀.style limit.toNat
      (Session.word c₀.style limit.toNat word s) = goal) :
    Does (dispatch word) m (fun _ m' => Shows c₀ limit goal m') (Lands c₀ limit goal) := by
  obtain ⟨hfn, hframes⟩ := top_of_onPrompt hat
  have hroom : m.engine.room = limit.toNat := by rw [Engine.room, hframes, hlimit]; simp
  have htop : ∀ d, Chain d m.engine.fn m.engine.pc m.engine.frames [] := by
    intro d
    rw [hfn, hframes]
    exact .top _
  have hcalled : ∀ id, (Session.call c₀.style m.engine.room id >>= fun _ =>
      Session.unwind c₀.style m.engine.room []) s = Session.call c₀.style limit.toNat id s := by
    intro id
    rw [hroom, bind_apply]
    cases Session.call c₀.style limit.toNat id s <;> rfl
  cases dispatching hm.engine hword with
  | @close m1 id f hlookup himmediate hcode hnative hm1 hdispatch =>
      rw [← h.dict] at hlookup
      rw [Session.word_of_some hlookup, himmediate, Bool.true_or, if_pos rfl, ← hcalled, bind_apply,
        Session.call_primitive (get?_of_lookup? hlookup).1 hcode hnative] at hgoal
      rw [← hm1.engine] at hlimit htop
      refine Does.congr ?_ hdispatch
      rw [does_bind]
      refine shows_primitive hc₀ (hm1.isSound hm hm.engine) hlimit (h.congr hm1 rfl)
        (by rw [hm1.input]; exact hbuffer) (fun e _ => htop e.dict) ?_
      rw [hm1.engine, bind_apply]
      exact hgoal
  | @run id f hlookup himmediate hmode hcall hdispatch =>
      rw [Session.word_of_some (by rw [h.dict]; exact hlookup), h.mode, hmode,
        if_pos (by simp)] at hgoal
      have hget := (get?_of_lookup? hlookup).1
      refine Does.congr ?_ hdispatch
      rw [does_bind]
      exact shows_call hc₀ hm hlimit hpos h hbuffer hget hcall
        (ne_endDefine_of_not_immediate hm.engine hget himmediate) (htop _) (by rw [hcalled, hgoal])
  | compile hlookup himmediate hmode hdefining hid _ hm1 hdispatch =>
      rw [Session.word_of_some (by rw [h.dict]; exact hlookup), h.mode, hmode, himmediate,
        if_neg (by decide), if_neg (Int.not_lt.mpr hid)] at hgoal
      exact does_of_ok hdispatch (shows_append hat hlimit hdefining h hm1 hgoal)
  | refuse hlookup himmediate hmode hid hdispatch =>
      rw [Session.word_of_some (by rw [h.dict]; exact hlookup), h.mode, hmode, himmediate,
        if_neg (by decide), if_pos hid] at hgoal
      exact (shows_report hc₀ (becomes_engine m m.engine) hat hlimit h hgoal).congr hdispatch
  | number hlookup hread hmode hdispatch =>
      rw [Session.word_of_none (by rw [h.dict]; exact hlookup), hread, h.mode, hmode] at hgoal
      refine does_of_ok hdispatch (shows_top hlimit hfn hframes ?_ hgoal)
      obtain ⟨output, hheard, rfl⟩ := h
      exact ⟨output, hheard, rfl⟩
  | literal hlookup hread hmode hdefining hm1 hdispatch =>
      rw [Session.word_of_none (by rw [h.dict]; exact hlookup), hread, h.mode, hmode] at hgoal
      exact does_of_ok hdispatch (shows_append hat hlimit hdefining h hm1 hgoal)
  | unknown hlookup hread hm1 hdispatch =>
      rw [Session.word_of_none (by rw [h.dict]; exact hlookup), hread] at hgoal
      exact (shows_report hc₀ hm1 hat hlimit h hgoal).congr hdispatch

/-- Reading on, when the line that is read from is `line`. -/
lemma shows_readLine {line : List Text} (hm : m.IsSound) (hat : m.engine.control = onPrompt)
    (hlimit : m.engine.limit = limit) (hpos : 0 < limit) (hnext : nextWord m = nextWord m1)
    (hbuffer : m1.input.buffer = some line) (h : Shown c₀ m1 s) (hs : s.running = true)
    (hgoal : Session.run c₀.style limit.toNat s = goal) :
    Does read m (fun _ m' => Shows c₀ limit goal m') (Lands c₀ limit goal) := by
  obtain ⟨hfn, hframes⟩ := top_of_onPrompt hat
  have hline : s.line = line := by rw [h.line, Source.buffered, hbuffer]; rfl
  rw [read, does_bind]
  cases line with
  | nil =>
      obtain ⟨m2, hword, -, hm2⟩ := nextWord_mark h hbuffer
      rw [← hnext] at hword
      have hengine := ((talks_nextWord m).of_ok hword).1
      refine does_of_ok hword (shows_top ?_ ?_ ?_ hm2 hgoal)
      · rw [hengine, hlimit]
      · rw [hengine, hfn]
      · rw [hengine, hframes]
  | cons w line =>
      obtain ⟨m2, hword, hbuffer2, hm2⟩ := nextWord_word h hbuffer
      rw [← hnext] at hword
      have hengine := ((talks_nextWord m).of_ok hword).1
      have hsound := talks_nextWord.isSound hm hword
      rw [Session.run_word hs hline] at hgoal
      refine does_of_ok hword (shows_dispatch hc₀ hsound ?_ (isWord_of_nextWord hm.input hword) ?_
        hpos hm2 ?_ hgoal)
      · rw [hengine, hat]
      · rw [hengine, hlimit]
      · rw [hbuffer2]
        rfl

lemma shows_read (hm : m.IsSound) (hat : m.engine.control = onPrompt)
    (hrunning : m.engine.running = true) (hpos : 0 < limit) (h : Shows c₀ limit goal m) :
    Does read m (fun _ m' => Shows c₀ limit goal m') (Lands c₀ limit goal) := by
  obtain ⟨hlimit, s, hs, hgoal⟩ := h.top (top_of_onPrompt hat).2
  have hsrunning : s.running = true := by rw [hs.running, hrunning]
  cases hbuffer : m.input.buffer with
  | some line =>
      exact shows_readLine hc₀ hm hat hlimit hpos rfl hbuffer hs hsrunning hgoal
  | none =>
      have hline : s.line = [] := by rw [hs.line, Source.buffered, hbuffer]; rfl
      cases hlines : s.lines with
      | nil =>
          obtain ⟨cause, m1, hnext, hm1, hflushed⟩ := nextWord_ended hc₀ hs hbuffer hlines
          rw [Session.run_ended hline hlines] at hgoal
          rw [hgoal] at hm1
          rw [read, does_bind]
          exact does_of_error hnext (Or.inl ⟨cause, rfl, hm1, hflushed⟩)
      | cons line lines =>
          obtain ⟨m1, hnext, -, hbuffer1, hm1⟩ := nextWord_line hc₀ hs hbuffer hlines
          rw [Session.run_nextLine hsrunning hline hlines] at hgoal
          exact shows_readLine hc₀ hm hat hlimit hpos hnext hbuffer1 hm1 hsrunning hgoal

/-- A line of words: the induction is over the words read. -/
lemma shows_prompt (hm : m.IsSound) (hat : m.engine.control = onPrompt) (hpos : 0 < limit)
    (h : Shows c₀ limit goal m) :
    Does prompt m (fun _ m' => Shows c₀ limit goal m') (Lands c₀ limit goal) := by
  induction m using prompt.induct with
  | case1 m hrunning m1 hread ih =>
      obtain ⟨hm1, hat1⟩ := (isSound_read hm hat).of_ok hread
      have h1 := (shows_read hc₀ hm hat hrunning hpos h).of_ok hread
      exact (ih hm1 (hat1 rfl) h1).congr (prompt_again hrunning hread)
  | case2 m hrunning m1 hread =>
      exact does_of_ok (prompt_ended hrunning hread)
        ((shows_read hc₀ hm hat hrunning hpos h).of_ok hread)
  | case3 m hrunning i m1 hread =>
      exact does_of_error (prompt_broken hrunning hread)
        ((shows_read hc₀ hm hat hrunning hpos h).of_error hread)
  | case4 m hrunning => exact does_of_ok (prompt_stopped hrunning) h

/-! ## One instruction, and many -/

/-- **The step lemma.**  An instruction does not change the outcome. -/
lemma shows_step (hm : m.IsSound) (hrunning : m.engine.running = true) (hpos : 0 < limit)
    (h : Shows c₀ limit goal m) :
    Does step m (fun _ m' => Shows c₀ limit goal m') (Lands c₀ limit goal) := by
  cases stepping hm.engine with
  | @line m1 hfn hpc hframes hm1 hat hstep =>
      obtain ⟨hlimit, s, hs, hgoal⟩ := h.top hframes
      have hsound := hm1.isSound hm (hm.engine.top hfn hframes (Or.inr rfl))
      obtain ⟨hfn1, hframes1⟩ := top_of_onPrompt hat
      refine (shows_prompt hc₀ hsound hat hpos ?_).congr hstep
      exact shows_top (by rw [hm1.engine, ← hlimit]) hfn1 hframes1 (hs.congr hm1 rfl) hgoal
  | jump hfn hpc hframes hm1 hstep =>
      obtain ⟨hlimit, s, hs, hgoal⟩ := h.top hframes
      refine does_of_ok hstep (shows_top ?_ ?_ ?_ (hs.congr hm1 rfl) hgoal)
      · rw [hm1.engine, ← hlimit]
      · rw [hm1.engine, ← hfn]
      · rw [hm1.engine, ← hframes]
  | @back m1 past frame frames hspot hframes _ hm1 hstep =>
      -- only the end of the word is left of it, and the evaluation goes on with its caller
      obtain ⟨chain, s, hlimit, hs, hchain, hbuffer, hgoal⟩ := h
      obtain ⟨frame', frames', outer, hcons, rfl, houter⟩ := hchain.inv hspot
      rw [hframes] at hcons
      cases hcons
      have hroom := Engine.room_returned hframes
        (hm.engine.depth (by rw [hlimit]; exact hpos)) frame.fn frame.pc
      refine does_of_ok hstep ⟨outer, s, ?_, hs.congr hm1 rfl, ?_, fun _ => ?_, ?_⟩
      · rw [hm1.engine, ← hlimit]
      · rw [hm1.engine]
        exact houter
      · rw [hm1.input]
        exact hbuffer (List.cons_ne_nil _ _)
      · rw [hm1.engine, hroom, ← Session.unwind_finish]
        exact hgoal
  | @push m1 past rest n hspot hm1 hstep =>
      obtain ⟨chain, s, hlimit, hs, hchain, hbuffer, hgoal⟩ := h
      obtain ⟨outer, rfl, hnext⟩ := hchain.next hspot
      rw [Session.listed, List.map_cons, List.cons_append,
        Session.unwind_next (by rw [hs.running, hrunning])] at hgoal
      refine does_of_ok hstep ⟨Session.listed rest :: outer,
        { s with stack := n.toInt32 :: s.stack }, ?_, ?_, ?_, fun _ => ?_, ?_⟩
      · rw [hm1.engine, ← hlimit]
      · obtain ⟨output, hheard, rfl⟩ := hs
        refine ⟨output, by rw [hm1.console]; exact hheard, ?_⟩
        rw [session, session, hm1.engine, hm1.input]
      · rw [hm1.engine]
        exact hnext
      · rw [hm1.input]
        exact hbuffer (List.cons_ne_nil _ _)
      · rw [hm1.engine]
        exact hgoal
  | @call m1 past rest callee f hspot hget hcall hend hm1 hstep =>
      obtain ⟨chain, s, hlimit, hs, hchain, hbuffer, hgoal⟩ := h
      obtain ⟨outer, rfl, hnext⟩ := hchain.next hspot
      rw [Session.listed, List.map_cons, List.cons_append,
        Session.unwind_next (by rw [hs.running, hrunning])] at hgoal
      have hopen := hm.engine.untouched_of_word hspot.finished.ne_boot
      have hsound := hm1.isSound hm (hm.engine.moved (Or.inr hopen)
        (hm.engine.active.move hspot.next) hm.engine.depth)
      have hchain1 : Chain m1.engine.dict m1.engine.fn m1.engine.pc m1.engine.frames
          (Session.listed rest :: outer) := by
        rw [hm1.engine]
        exact hnext
      have hdict : m1.engine.dict = m.engine.dict := by rw [hm1.engine]
      rw [← hdict] at hget hcall
      refine (shows_call hc₀ hsound ?_ hpos (hs.congr hm1 rfl) ?_ hget hcall hend hchain1 ?_).congr
        hstep
      · rw [hm1.engine, ← hlimit]
      · rw [hm1.input]
        exact hbuffer (List.cons_ne_nil _ _)
      · rw [hm1.engine]
        exact hgoal

/-- Handling a fault is what comes next, and leaves the machine at the top level. -/
lemma shows_recover {what : Fault} (hm : m.IsSound) (hlimit : m.engine.limit = limit)
    (h : Shown c₀ m s)
    (hgoal : Session.run c₀.style limit.toNat (s.rescued c₀.style what) = goal) :
    ∃ m', recover what m = .ok () m' ∧ Shows c₀ limit goal m' := by
  set m1 := noted (utf8 "!") (fun m =>
    utf8 "fault: " ++ what.message ++ utf8 " at " ++ m.input.last.text ++ utf8 " " ++
      m.input.text.quote) m with hm1
  have hengine1 : m1.engine = m.engine := engine_noted ..
  have h1 : Shown c₀ m1 s := h.congr ((becomes_engine m m.engine).noted _ _) rfl
  obtain ⟨m2, hreport, -, output, hheard, hs⟩ :=
    report_shown hc₀.toFirm h1 (utf8 "Error: " ++ what.message)
  have hengine : m2.engine = m.engine := ((talks_report _ m1).of_ok hreport).1.trans hengine1
  have hmode : (if m2.engine.defining.isNone then Mode.execute else m2.engine.mode)
      = m2.engine.mode := by
    rw [hengine]
    have hiff := hm.engine.mode
    cases hdefining : m.engine.defining with
    | some target => rfl
    | none => cases hmode : m.engine.mode <;> simp_all
  refine ⟨{ m2 with engine := { m2.engine with
    frames := [], fn := bootId, pc := -1
    mode := if m2.engine.defining.isNone then .execute else m2.engine.mode } }, ?_, ?_⟩
  · rw [recover, bind_of_ok (show note _ _ m = .ok () m1 from rfl), bind_of_ok hreport]
    rfl
  · refine shows_top (by rw [← hlimit, ← hengine]) rfl rfl ⟨output, hheard, ?_⟩ hgoal
    rw [hmode]
    exact hs

/-- How a run is broken off: by a halt, which shows the outcome. -/
def Halts (c₀ : Console) (goal : Session) (i : Interrupt) (m' : Machine) : Prop :=
  ∃ cause, i = .halt cause ∧ Shown c₀ m' goal ∧ m'.console.Flushed

lemma shows_tick (hm : m.IsSound) (hrunning : m.engine.running = true) (hpos : 0 < limit)
    (h : Shows c₀ limit goal m) :
    Does (tick .background) m (fun context m' => context = .background ∧ Shows c₀ limit goal m')
      (Halts c₀ goal) := by
  have hshows := shows_step hc₀ hm hrunning hpos h
  cases hstep : step m with
  | ok _ m1 => exact does_of_ok (tick_of_ok hstep) ⟨rfl, hshows.of_ok hstep⟩
  | error i m1 =>
      rcases hshows.of_error hstep with ⟨cause, rfl, hhalt⟩ | ⟨what, s, rfl, hlimit, hs, hgoal⟩
      · exact does_of_error (tick_of_halt hstep) ⟨cause, rfl, hhalt⟩
      · rcases (isSound_step hm).of_error hstep with ⟨cause, hcause⟩ | ⟨_, _, -, hm1⟩
        · cases hcause
        · obtain ⟨m2, hrecover, hm2⟩ := shows_recover hc₀ hm1 hlimit hs hgoal
          exact does_of_ok ((tick_of_fault hstep).trans (bind_of_ok hrecover)) ⟨rfl, hm2⟩

/-- **The run lemma.**  However many instructions are executed, the outcome stays the same. -/
lemma shows_exec (hm : m.IsSound) (hpos : 0 < limit) (h : Shows c₀ limit goal m) (fuel : ℕ) :
    Does (exec fuel .background) m (fun _ m' => Shows c₀ limit goal m') (Halts c₀ goal) := by
  induction fuel generalizing m with
  | zero => exact h
  | succ fuel ih =>
      cases hrunning : m.engine.running with
      | false => exact does_of_ok (exec_stopped hrunning _) h
      | true =>
          have hshows := shows_tick hc₀ hm hrunning hpos h
          cases htick : tick .background m with
          | ok context m1 =>
              obtain ⟨rfl, h1⟩ := hshows.of_ok htick
              exact (ih ((isSound_tick hm .background).of_ok htick) h1).congr
                (exec_tick hrunning htick fuel)
          | error i m1 =>
              exact does_of_error (exec_broken hrunning htick fuel) (hshows.of_error htick)

end Steady

/-! ## A whole run -/

/-- The outcome of a run: the machine shows `goal`, and everything has arrived at the far end of
every outlet. -/
structure Delivers (c₀ : Console) (goal : Session) (m : Machine) : Prop where
  shown : Shown c₀ m goal
  flushed : m.console.Flushed

lemma settle_ended (failure : Failure) (m : Machine) :
    ∃ failure' m', settle failure m = (.ended failure', m') ∧ Becomes m m.engine m' := by
  rw [settle]
  split
  · exact ⟨none, m, rfl, becomes_engine m m.engine⟩
  · dsimp only
    split_ifs
    · exact ⟨_, _, rfl, (becomes_engine m m.engine).noted _ _⟩
    · exact ⟨_, _, rfl, becomes_engine m m.engine⟩
    · exact ⟨_, _, rfl, (becomes_engine m m.engine).noted _ _⟩
    · exact ⟨_, _, rfl, becomes_engine m m.engine⟩

lemma Delivers.congr (h : Delivers c₀ goal m) (hm' : Becomes m m.engine m') : Delivers c₀ goal m' :=
  ⟨h.shown.congr hm' rfl, by rw [Console.Flushed, hm'.console]; exact h.flushed⟩

/-- A run of a machine that stops ends with the output flushed. -/
lemma run_of_stopped (m : Machine) (hc₀ : c₀.Steady) (h : Shown c₀ m' goal) :
    ∃ m2, Delivers c₀ goal m2 ∧ ∀ fuel, exec fuel .background (m.indent true) = .ok true m' →
      run fuel .background m = (.ended none, m2) := by
  obtain ⟨output, hheard, rfl⟩ := h
  obtain ⟨c, hflush, hc, hflushed⟩ := hheard.flush hc₀.toFirm
  refine ⟨{ m'.indent false with console := c }, ⟨⟨output, hc, rfl⟩, hflushed⟩, ?_⟩
  intro fuel hexec
  have hindented : execIndented fuel .background m = .ok true (m'.indent false) := by
    rw [execIndented, hexec]
  have hspeak : speak Console.flush (m'.indent false)
      = .ok none { m'.indent false with console := c } := by
    rw [speak, show (m'.indent false).console = m'.console from rfl, hflush]
  have hrun : runOut fuel .background m = .ok true { m'.indent false with console := c } := by
    rw [runOut, bind_of_ok hindented]
    dsimp only
    rw [if_pos rfl, bind_of_ok hspeak]
    rfl
  rw [run, hrun]

/-- A run of a machine that is halted ends with the output flushed. -/
lemma run_of_halt (m : Machine) (cause : Option Failure) (h : Delivers c₀ goal m') :
    ∃ failure m2, Delivers c₀ goal m2 ∧ ∀ fuel,
      exec fuel .background (m.indent true) = .error (.halt cause) m' →
        run fuel .background m = (.ended failure, m2) := by
  have hm1 : Delivers c₀ goal (m'.indent false) := h.congr ⟨rfl, rfl, rfl⟩
  have hrun : ∀ fuel, exec fuel .background (m.indent true) = .error (.halt cause) m' →
      runOut fuel .background m = .error (.halt cause) (m'.indent false) := by
    intro fuel hexec
    rw [runOut,
      bind_of_error (show execIndented fuel .background m = _ by rw [execIndented, hexec])]
  cases hguard : (Interrupt.halt cause).ending.guarded (utf8 "VM") with
  | none =>
      refine ⟨none, _, hm1, fun fuel hexec => ?_⟩
      rw [run, hrun fuel hexec]
      simp only [hguard]
  | some failure =>
      obtain ⟨failure', m2, hsettle, hm2⟩ := settle_ended failure (m'.indent false)
      refine ⟨failure', m2, hm1.congr hm2, fun fuel hexec => ?_⟩
      rw [run, hrun fuel hexec]
      simp only [hguard, hsettle]

lemma shown_create {m₀ : Machine} {settings : List Setting} (hnew : create settings = .ok m₀)
    (hsteady : m₀.console.Steady) :
    Shown m₀.console (m₀.indent true) { lines := m₀.input.unread } := by
  obtain ⟨hengine, hbuffer, -⟩ := fresh_create hnew
  refine ⟨[], hsteady.heard, ?_⟩
  rw [session, show (m₀.indent true).engine = m₀.engine from rfl, hengine, Source.buffered,
    show (m₀.indent true).input = m₀.input from rfl, hbuffer]
  rfl

/-- **The machine evaluates the language.**  A new machine with a limit on its return stack, with
outlets that do not fail and without prompts, runs to an end; and then its data stack, its
dictionary, its mode, its open definition, its running flag, and what every outlet has received
since, are those of the session that evaluates the same input directly. -/
theorem run_evaluates {settings : List Setting} {m₀ : Machine} (hnew : create settings = .ok m₀)
    (hlimit : 0 < m₀.engine.limit) (hsinks : m₀.console.Reliable)
    (hprompts : m₀.console.prompts = .off) :
    ∃ enough failure m, (∀ fuel ≥ enough, run fuel .background m₀ = (.ended failure, m)) ∧
      let s := Session.run m₀.console.style m₀.engine.limit.toNat { lines := m₀.input.unread }
      m.engine.stack = s.stack ∧ m.engine.dict = s.dict ∧ m.engine.mode = s.mode ∧
        m.engine.defining = s.defining ∧ m.engine.running = s.running ∧
        ∀ i ∈ m₀.console.route.outlets, ∀ o, m₀.console.outlets[i]? = some o → o ≠ .discard →
          ∃ o', m.console.outlets[i]? = some o' ∧ o'.received = o.content ++ s.output := by
  have hsteady := steady_create hnew hsinks hprompts
  have hfresh := fresh_create hnew
  have hsound : (m₀.indent true).IsSound := ⟨hfresh.isSound.engine, hfresh.isSound.input⟩
  set goal :=
    Session.run m₀.console.style m₀.engine.limit.toNat { lines := m₀.input.unread } with hgoal
  have hshows : Shows m₀.console m₀.engine.limit goal (m₀.indent true) := by
    refine shows_top rfl ?_ ?_ (shown_create hnew hsteady) hgoal.symm
    · exact congrArg Engine.fn hfresh.engine
    · exact congrArg Engine.frames hfresh.engine
  have hexec := shows_exec hsteady hsound hlimit hshows
  -- the run ends, and whichever way it does, the machine shows the outcome
  have hrun : ∃ enough failure m, (∀ fuel ≥ enough, run fuel .background m₀ = (.ended failure, m)) ∧
      Delivers m₀.console goal m := by
    obtain ⟨enough, ⟨m', hstopped, hm'⟩ | ⟨cause, m', hm'⟩⟩ := ends_of_isSound hsound hlimit
    · have h := ((hexec enough).of_ok (hm' enough (Nat.le_refl _))).stopped hstopped
      obtain ⟨m, hm, hrun⟩ := run_of_stopped m₀ hsteady h
      exact ⟨enough, none, m, fun fuel hfuel => hrun fuel (hm' fuel hfuel), hm⟩
    · obtain ⟨_, -, hshown, hflushed⟩ := (hexec enough).of_error (hm' enough (Nat.le_refl _))
      obtain ⟨failure, m, hm, hrun⟩ := run_of_halt m₀ cause ⟨hshown, hflushed⟩
      exact ⟨enough, failure, m, fun fuel hfuel => hrun fuel (hm' fuel hfuel), hm⟩
  obtain ⟨enough, failure, m, hrun, ⟨output, hheard, heq⟩, hflushed⟩ := hrun
  refine ⟨enough, failure, m, hrun, ?_⟩
  rw [heq]
  refine ⟨rfl, rfl, rfl, rfl, rfl, fun i hi o ho hkeeps => ?_⟩
  obtain ⟨o', ho', htook⟩ := hheard.outlets.changed i hi o ho
  refine ⟨o', ho', ?_⟩
  rw [hflushed i (by rw [hheard.route]; exact hi) o' ho', htook.content hkeeps]
  rfl

/-- A definition, a word that calls too deep, a fault in the middle of a line, an unknown word, and
`see` from within a word. -/
theorem run_evaluates_of_session :
    ∃ m₀, create [.written [] (.ok (utf8
          ": sq dup * ; 3 sq .\n: f f ; f 1\n1 0 / 2\n: s see ; s sq nosuch 4\n")),
        .output (.memory []), .prompts .off, .limit 3] = .ok m₀ ∧
      0 < m₀.engine.limit ∧ m₀.console.Reliable ∧ m₀.console.prompts = .off ∧
      ∃ enough failure m, (∀ fuel ≥ enough, run fuel .background m₀ = (.ended failure, m)) ∧
        let s := Session.run m₀.console.style m₀.engine.limit.toNat { lines := m₀.input.unread }
        m.engine.stack = s.stack ∧ m.engine.dict = s.dict ∧
          ∃ o, m.console.outlets[1]? = some o ∧ o.received = s.output := by
  obtain ⟨m₀, hnew⟩ : ∃ m₀, create [.written [] (.ok (utf8
      ": sq dup * ; 3 sq .\n: f f ; f 1\n1 0 / 2\n: s see ; s sq nosuch 4\n")),
      .output (.memory []), .prompts .off, .limit 3] = .ok m₀ := ⟨_, rfl⟩
  have hlimit : 0 < m₀.engine.limit := by
    cases hnew
    decide
  have hsinks : m₀.console.Reliable := by
    cases hnew
    intro i hi o ho
    cases List.mem_singleton.mp hi
    cases ho
    exact trivial
  have hprompts : m₀.console.prompts = .off := by
    cases hnew
    rfl
  have hroute : 1 ∈ m₀.console.route.outlets := by
    cases hnew
    exact List.mem_singleton_self 1
  have houtlet : m₀.console.outlets[1]? = some (.memory []) := by
    cases hnew
    rfl
  obtain ⟨enough, failure, m, hrun, hstack, hdict, -, -, -, hreceived⟩ :=
    run_evaluates hnew hlimit hsinks hprompts
  exact ⟨m₀, hnew, hlimit, hsinks, hprompts, enough, failure, m, hrun, hstack, hdict,
    hreceived 1 hroute _ houtlet nofun⟩

end Machine

end ColonMachine
