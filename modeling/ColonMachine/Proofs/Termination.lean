import ColonMachine.Proofs.Faults
import Mathlib.Algebra.Order.BigOperators.Group.List
import Mathlib.Tactic.Linarith
import Mathlib.Tactic.Ring

/-!
# Every session comes to an end

With finite input and a limit on the return stack, a machine executes finitely many instructions.
The top level loop jumps back for ever and a word may call itself, so two things have to be counted.

* **What is left to be read.**  A line of words uses up input (`owed_prompt`); while a word is
  running nothing is given back, except that a fault restores the mark at the end of the line.
  `Machine.owed` counts that mark in advance.
* **What is left to be executed.**  Compiled code has no jumps, so every instruction of a word
  brings its counter nearer to the return.  A call adds the bytes of another word, but one level
  deeper, where a byte weighs less: with `n` bytes of code altogether, a byte weighs
  `(n + 1) ^ room` if `room` more calls can be nested.  `Engine.load` is the weight of all bytes
  ahead.  Opening a definition from within a word does not change it, because the new function is
  empty.

No instruction increases the first, and one that does not decrease it decreases the second
(`descends_step`).
-/

namespace ColonMachine

/-! ## The bytes that are left -/

namespace Dictionary

variable {d : Dictionary} {fn id : FuncId} {f : Function} {pc : ℤ} {frames : List Frame}

def codeSize (d : Dictionary) : ℕ := (d.functions.map (·.code.length)).sum

/-- How many bytes of a function are ahead of the counter. -/
def ahead (d : Dictionary) (fn : FuncId) (pc : ℤ) : ℕ :=
  match d.get? fn with
  | some f => (f.code.length - (pc + 1)).toNat
  | none => 0

/-- The weight of what is ahead in a function and in those that called it, if `room` more calls can
be nested.  In the top level loop only its jump counts. -/
def burden (d : Dictionary) : (room : ℕ) → FuncId → ℤ → List Frame → ℕ
  | _, _, pc, [] => (pc + 1).toNat
  | room, fn, pc, frame :: frames =>
      d.ahead fn pc * (d.codeSize + 1) ^ room + d.burden (room + 1) frame.fn frame.pc frames

lemma length_code_le (h : d.get? id = some f) : f.code.length ≤ d.codeSize := by
  obtain ⟨i, rfl⟩ := Int.eq_ofNat_of_zero_le (bounds_of_get? h).1
  exact List.le_sum_of_mem (List.mem_map_of_mem (List.mem_of_getElem? h))

lemma codeSize_add (d : Dictionary) (name : Text) : (d.add name).codeSize = d.codeSize := by
  simp [codeSize, add, push]

lemma ahead_of_spot {past rest : List Instr} (h : Spot d fn pc past rest) :
    d.ahead fn pc = 2 * rest.length + 1 := by
  obtain ⟨⟨-, f, hget, hcode⟩, hpc⟩ := h
  simp only [ahead, hget, hcode, hpc, List.length_append, Instr.length_assemble,
    List.length_singleton]
  omega

/-- A new function does not change the weight of the calls in progress. -/
lemma burden_add (h : Active d fn pc frames) (name : Text) (room : ℕ) :
    (d.add name).burden room fn pc frames = d.burden room fn pc frames := by
  have hmono : ∀ {id pc past rest}, Spot d id pc past rest →
      (d.add name).ahead id pc = d.ahead id pc := by
    intro id pc past rest hspot
    rw [ahead_of_spot hspot, ahead_of_spot (hspot.mono fun _ hbody => hbody.add name)]
  induction h generalizing room with
  | top => rfl
  | called hspot => simp only [burden, hmono hspot, codeSize_add]
  | nested hspot _ _ _ ih => simp only [burden, hmono hspot, codeSize_add, ih]

end Dictionary

namespace Engine

variable {e e' : Engine} {id : FuncId}

/-- How many more calls can be nested. -/
def room (e : Engine) : ℕ := (e.limit - e.frames.length).toNat

/-- The weight of everything that is ahead. -/
def load (e : Engine) : ℕ := e.dict.burden e.room e.fn e.pc e.frames

lemma room_entered (hlimit : 0 < e.limit) (hfull : ¬ e.Full) :
    e.room = (e.entered id).room + 1 := by
  have : ¬ e.limit ≤ e.frames.length := fun hle => hfull ⟨hlimit, hle⟩
  simp only [room, entered, List.length_cons]
  omega

lemma room_returned {frame : Frame} {frames : List Frame} (hframes : e.frames = frame :: frames)
    (hdepth : e.frames.length ≤ e.limit) (fn : FuncId) (pc : ℤ) :
    room { e with fn := fn, pc := pc, frames := frames } = e.room + 1 := by
  rw [hframes, List.length_cons] at hdepth
  simp only [room, hframes, List.length_cons]
  omega

/-- In a word, the bytes ahead of the counter weigh the least. -/
lemma load_eq (hframes : e.frames ≠ []) :
    ∃ outer, ∀ fn pc, load { e with fn := fn, pc := pc }
      = e.dict.ahead fn pc * (e.dict.codeSize + 1) ^ e.room + outer := by
  obtain ⟨frame, frames, hcons⟩ := List.exists_cons_of_ne_nil hframes
  refine ⟨e.dict.burden (e.room + 1) frame.fn frame.pc frames, fun fn pc => ?_⟩
  rw [load, room, room, hcons]
  rfl

/-- An instruction of a word that was executed is no longer ahead, and it had two bytes. -/
lemma load_next {past rest : List Instr} {i : Instr} (hframes : e.frames ≠ [])
    (hspot : Spot e.dict e.fn e.pc past (i :: rest)) :
    load { e with pc := e.pc + 2 } + (e.dict.codeSize + 1) ^ e.room < e.load := by
  have hpos : 0 < (e.dict.codeSize + 1) ^ e.room := Nat.pow_pos (Nat.succ_pos _)
  obtain ⟨outer, houter⟩ := load_eq hframes
  have hnow := houter e.fn e.pc
  have hnext := houter e.fn (e.pc + 2)
  rw [Dictionary.ahead_of_spot hspot, List.length_cons] at hnow
  rw [Dictionary.ahead_of_spot hspot.next] at hnext
  change e.load = _ at hnow
  rw [hnow, hnext]
  linarith

/-- Entering a word adds less than one byte weighs in the caller. -/
lemma load_entered {body : List Instr} (hbody : e.dict.Finished id body) (hlimit : 0 < e.limit)
    (hfull : ¬ e.Full) :
    (e.entered id).load < e.load + (e.dict.codeSize + 1) ^ e.room := by
  have hroom : e.room = (e.entered id).room + 1 := room_entered hlimit hfull
  obtain ⟨-, f, hget, -⟩ := hbody
  have hsize := Dictionary.length_code_le hget
  have hahead : e.dict.ahead id (-1) = f.code.length := by simp [Dictionary.ahead, hget]
  have hload : (e.entered id).load
      = f.code.length * (e.dict.codeSize + 1) ^ (e.entered id).room + e.load := by
    rw [load, load, hroom, ← hahead]
    rfl
  rw [hload, hroom, Nat.pow_succ]
  have hpos : 0 < (e.dict.codeSize + 1) ^ (e.entered id).room := Nat.pow_pos (Nat.succ_pos _)
  -- no function has more than `codeSize` bytes, and each is lighter by the factor `codeSize + 1`
  nlinarith [Nat.mul_le_mul_right ((e.dict.codeSize + 1) ^ (e.entered id).room) hsize]

lemma load_returned {past : List Instr} {frame : Frame} {frames : List Frame}
    (hspot : Spot e.dict e.fn e.pc past []) (hframes : e.frames = frame :: frames)
    (hdepth : e.frames.length ≤ e.limit) :
    load { e with fn := frame.fn, pc := frame.pc, frames := frames } < e.load := by
  have hpos : 0 < (e.dict.codeSize + 1) ^ e.room := Nat.pow_pos (Nat.succ_pos _)
  have hload : e.load = 1 * (e.dict.codeSize + 1) ^ e.room
      + e.dict.burden (e.room + 1) frame.fn frame.pc frames := by
    rw [load, hframes, Dictionary.burden, Dictionary.ahead_of_spot hspot]
    rfl
  have hreturned : load { e with fn := frame.fn, pc := frame.pc, frames := frames }
      = e.dict.burden (e.room + 1) frame.fn frame.pc frames := by
    rw [load, room_returned hframes hdepth]
  omega

/-- The primitives leave the load as it is, except the one that closes a definition. -/
lemma load_effect {p : Primitive} (hactive : Active e.dict e.fn e.pc e.frames)
    (heffect : Effect e p e') (hp : p ≠ .endDefine) : e'.load = e.load := by
  cases heffect with
  | stack _ s => rfl
  | exit => rfl
  | opened hname hnew => exact Dictionary.burden_add hactive _ _
  | refused => rfl
  | closed => exact absurd rfl hp

end Engine

namespace Machine

variable {α : Type} {m m' : Machine}

/-! ## The input that is left -/

lemma Does.within {act : Act α} {ok : α → Machine → Prop} {broken : Interrupt → Machine → Prop}
    {k : ℕ} (h : Does act m ok broken) (hwithin : Within k act) :
    Does act m (fun a m' => ok a m' ∧ m'.pending ≤ m.pending + k) broken := by
  cases hact : act m with
  | ok a m' => exact does_of_ok hact ⟨h.of_ok hact, hwithin m a m' hact⟩
  | error i m' => exact does_of_error hact (h.of_error hact)

lemma Becomes.pending {e : Engine} (h : Becomes m e m') : m'.pending = m.pending := by
  rw [Machine.pending, Machine.pending, h.input]

/-- What is left to be read, with the mark that a fault would restore. -/
def owed (m : Machine) : ℕ := m.pending + if m.engine.frames = [] then 0 else 1

lemma owed_of_top (h : m.engine.frames = []) : m.owed = m.pending := by simp [owed, h]

lemma owed_of_word (h : m.engine.frames ≠ []) : m.owed = m.pending + 1 := by simp [owed, h]

lemma owed_le (m : Machine) : m.owed ≤ m.pending + 1 := by
  rw [owed]
  split_ifs <;> omega

lemma pending_le_owed (m : Machine) : m.pending ≤ m.owed := Nat.le_add_right ..

/-- How reading is interrupted: by a halt, or by a fault after at least `k` was used up. -/
def Spends (k : ℕ) (m : Machine) (i : Interrupt) (m' : Machine) : Prop :=
  (∃ cause, i = .halt cause) ∨
    ∃ what, i = .fault what ∧ m'.engine.limit = m.engine.limit ∧ m'.pending + k ≤ m.pending

lemma owed_report {m1 : Machine} (message : Text) (hat : m.engine.control = onPrompt)
    (hm1 : Becomes m m.engine m1) :
    Does (report message >>= fun _ => pure true) m1
      (fun _ m' => m'.engine.limit = m.engine.limit ∧ m'.owed ≤ m.pending + 1) (Spends 0 m) := by
  have hframes : m.engine.frames = [] := congrArg Control.frames hat
  rw [does_bind]
  refine ((talks_report message m1).within (within_report _)).imp ?_ fun i m' hi => Or.inl hi.1
  rintro - m' ⟨⟨hengine, -⟩, hpending⟩
  rw [hm1.engine] at hengine
  rw [hm1.pending] at hpending
  have htop : m'.owed = m'.pending := owed_of_top (by rw [hengine, hframes])
  exact ⟨by rw [hengine], by rw [htop]; exact hpending⟩

/-- A word that is dispatched may restore the mark of the line, or owe it. -/
lemma owed_dispatch {word : Text} (hm : m.IsSound) (hat : m.engine.control = onPrompt)
    (hword : word.IsWord) :
    Does (dispatch word) m
      (fun _ m' => m'.engine.limit = m.engine.limit ∧ m'.owed ≤ m.pending + 1) (Spends 0 m) := by
  have hframes : m.engine.frames = [] := congrArg Control.frames hat
  have hkeeps : ∀ {p : Primitive} {m' : Machine}, Effect m.engine p m'.engine →
      m'.pending ≤ m.pending + 0 →
      m'.engine.limit = m.engine.limit ∧ m'.owed ≤ m.pending + 1 := by
    intro p m' heffect hpending
    have htop := owed_of_top (m := m') (by
      rw [← hframes]
      exact congrArg Control.frames heffect.control)
    exact ⟨heffect.limit, by omega⟩
  have hbecomes : ∀ {e : Engine} {m' : Machine}, Becomes m e m' → e.limit = m.engine.limit →
      e.frames = [] → m'.engine.limit = m.engine.limit ∧ m'.owed ≤ m.pending + 1 := by
    intro e m' hm' hlimit hframes
    have htop := owed_of_top (m := m') (by rw [hm'.engine, hframes])
    have hpending := hm'.pending
    exact ⟨by rw [hm'.engine, hlimit], by omega⟩
  cases dispatching hm.engine hword with
  | @close m1 id f hlookup himmediate hcode hnative hm1 hdispatch =>
      have htidy : m1.input.Tidy := by rw [hm1.input]; exact hm.input
      refine Does.congr ?_ hdispatch
      rw [does_bind]
      refine ((primitive_effect .endDefine m1 htidy).within (within_primitive _)).imp ?_ ?_
      · rintro - m2 ⟨⟨heffect, -⟩, hpending⟩
        rw [hm1.engine] at heffect
        rw [hm1.pending] at hpending
        exact hkeeps heffect hpending
      · rintro i m2 (hhalt | ⟨what, rfl, -, rfl⟩)
        · exact Or.inl hhalt
        · exact Or.inr ⟨what, rfl, by rw [hm1.engine], by rw [hm1.pending]; exact Nat.le_refl _⟩
  | @run id f hlookup himmediate hmode hcall hdispatch =>
      refine Does.congr ?_ hdispatch
      rw [does_bind]
      have hget := (get?_of_lookup? hlookup).1
      refine ((call_effect hm.input hget hcall).within (within_call id)).imp ?_ ?_
      · rintro - m' ⟨⟨p, heffect, -, -⟩ | ⟨-, body, -, -, hm'⟩, hpending⟩
        · exact hkeeps heffect hpending
        · refine ⟨by rw [hm'.engine]; rfl, ?_⟩
          rw [owed_of_word (by rw [hm'.engine]; exact List.cons_ne_nil _ _), hm'.pending]
      · rintro i m' (hhalt | ⟨what, rfl, -, rfl⟩)
        · exact Or.inl hhalt
        · exact Or.inr ⟨what, rfl, rfl, Nat.le_refl _⟩
  | compile _ _ _ _ _ _ hm1 hdispatch => exact does_of_ok hdispatch (hbecomes hm1 rfl hframes)
  | refuse _ _ _ _ hdispatch =>
      exact (owed_report _ hat (becomes_engine m m.engine)).congr hdispatch
  | number _ _ _ hdispatch =>
      exact does_of_ok hdispatch (hbecomes (becomes_engine m _) rfl hframes)
  | literal _ _ _ _ hm1 hdispatch => exact does_of_ok hdispatch (hbecomes hm1 rfl hframes)
  | unknown _ _ hm1 hdispatch => exact (owed_report _ hat hm1).congr hdispatch

lemma owed_read (hm : m.IsSound) (hat : m.engine.control = onPrompt) :
    Does read m (fun _ m' => m'.engine.limit = m.engine.limit ∧ m'.owed < m.pending)
      (Spends 2 m) := by
  rw [read, does_bind]
  cases hnext : nextWord m with
  | error i m1 =>
      exact does_of_error hnext (Or.inl ((talks_nextWord m).of_error hnext).1)
  | ok word m1 =>
      have hengine := ((talks_nextWord m).of_ok hnext).1
      have hm1 := talks_nextWord.isSound hm hnext
      have hat1 : m1.engine.control = onPrompt := by rw [hengine, hat]
      have hpending := pending_of_nextWord hnext
      refine does_of_ok hnext ?_
      cases word with
      | none =>
          have htop := owed_of_top (congrArg Control.frames hat1)
          refine ⟨by rw [hengine], ?_⟩
          simp only [Option.isSome_none, Bool.false_eq_true, if_false] at hpending
          omega
      | some word =>
          simp only [Option.isSome_some, if_true] at hpending
          refine (owed_dispatch hm1 hat1 (isWord_of_nextWord hm.input hnext)).imp ?_ ?_
          · rintro more m' ⟨hlimit, howed⟩
            exact ⟨by rw [hlimit, hengine], by omega⟩
          · rintro i m' (hhalt | ⟨what, rfl, hlimit, hless⟩)
            · exact Or.inl hhalt
            · exact Or.inr ⟨what, rfl, by rw [hlimit, hengine], by omega⟩

lemma owed_prompt (hm : m.IsSound) (hat : m.engine.control = onPrompt)
    (hrunning : m.engine.running = true) :
    Does prompt m (fun _ m' => m'.engine.limit = m.engine.limit ∧ m'.owed < m.pending)
      (Spends 2 m) := by
  induction m using prompt.induct with
  | case1 m _ m1 hread ih =>
      obtain ⟨hlimit1, howed1⟩ := (owed_read hm hat).of_ok hread
      obtain ⟨hm1, hat1⟩ := (isSound_read hm hat).of_ok hread
      have hpending := pending_le_owed m1
      refine Does.congr ?_ (prompt_again hrunning hread)
      by_cases hrunning1 : m1.engine.running = true
      · refine (ih hm1 (hat1 rfl) hrunning1).imp ?_ ?_
        · rintro - m' ⟨hlimit, howed⟩
          exact ⟨hlimit.trans hlimit1, by omega⟩
        · rintro i m' (hhalt | ⟨what, rfl, hlimit, hless⟩)
          · exact Or.inl hhalt
          · exact Or.inr ⟨what, rfl, hlimit.trans hlimit1, by omega⟩
      · exact does_of_ok (prompt_stopped hrunning1) ⟨hlimit1, howed1⟩
  | case2 m _ m1 hread =>
      exact does_of_ok (prompt_ended hrunning hread) ((owed_read hm hat).of_ok hread)
  | case3 m _ i m1 hread =>
      exact does_of_error (prompt_broken hrunning hread) ((owed_read hm hat).of_error hread)
  | case4 m hstopped => exact absurd hrunning hstopped

/-! ## One instruction -/

/-- Less is left to be read; or no more, and less to be executed. -/
def Descends (m m' : Machine) : Prop :=
  m'.owed < m.owed ∨ m'.owed ≤ m.owed ∧ m'.engine.load < m.engine.load

/-- How an instruction is interrupted: by a halt, or by a fault after which less will be left even
though the mark of the line comes back. -/
def Falls (m : Machine) (i : Interrupt) (m' : Machine) : Prop :=
  (∃ cause, i = .halt cause) ∨ ∃ what, i = .fault what ∧ m'.engine.limit = m.engine.limit ∧
    (m'.pending + 1 < m.owed ∨ m'.pending + 1 ≤ m.owed ∧ 0 < m.engine.load)

/-- **The step lemma.**  Every instruction leaves less to be done. -/
lemma descends_step (hm : m.IsSound) (hlimit : 0 < m.engine.limit)
    (hrunning : m.engine.running = true) :
    Does step m (fun _ m' => m'.engine.limit = m.engine.limit ∧ Descends m m') (Falls m) := by
  cases stepping hm.engine with
  | line hfn hpc hframes hm1 hat hstep =>
      have hm1sound := hm1.isSound hm (hm.engine.top hfn hframes (Or.inr rfl))
      have hpending := hm1.pending
      have htop := owed_of_top hframes
      refine Does.congr ?_ hstep
      refine (owed_prompt hm1sound hat (by rw [hm1.engine]; exact hrunning)).imp ?_ ?_
      · rintro - m' ⟨hlimit', howed⟩
        exact ⟨by rw [hlimit', hm1.engine], Or.inl (by omega)⟩
      · rintro i m' (hhalt | ⟨what, rfl, hlimit', hless⟩)
        · exact Or.inl hhalt
        · exact Or.inr ⟨what, rfl, by rw [hlimit', hm1.engine], Or.inl (by omega)⟩
  | jump hfn hpc hframes hm1 hstep =>
      refine does_of_ok hstep ⟨by rw [hm1.engine], Or.inr ⟨Nat.le_of_eq ?_, ?_⟩⟩
      · rw [owed, owed, hm1.pending, hm1.engine]
      · rw [hm1.engine, Engine.load, Engine.load, hframes]
        simp [Dictionary.burden, hpc]
  | @back m1 past frame frames hspot hframes hback hm1 hstep =>
      refine does_of_ok hstep ⟨by rw [hm1.engine], Or.inr ⟨?_, ?_⟩⟩
      · -- back at the top level the mark is owed no more, within a word it still is
        have := hm1.pending
        have := owed_of_word (m := m) (by rw [hframes]; exact List.cons_ne_nil _ _)
        have := owed_le m1
        omega
      · rw [hm1.engine]
        exact Engine.load_returned hspot hframes (hm.engine.depth hlimit)
  | push hspot hm1 hstep =>
      have hframes := hm.engine.active.frames_ne_nil hspot
      have hload := Engine.load_next hframes hspot
      refine does_of_ok hstep ⟨by rw [hm1.engine], Or.inr ⟨Nat.le_of_eq ?_, ?_⟩⟩
      · rw [owed, owed, hm1.pending, hm1.engine]
      · rw [hm1.engine]
        exact Nat.lt_of_le_of_lt (Nat.le_add_right _ _) hload
  | @call m1 past rest callee f hspot hget hcall hend hm1 hstep =>
      have hframes := hm.engine.active.frames_ne_nil hspot
      have hload := Engine.load_next hframes hspot
      have howed := owed_of_word hframes
      have hpending1 := hm1.pending
      have hdict : m1.engine.dict = m.engine.dict := by rw [hm1.engine]
      rw [← hdict] at hget hcall
      refine Does.congr ?_ hstep
      have htidy : m1.input.Tidy := by rw [hm1.input]; exact hm.input
      refine ((call_effect htidy hget hcall).within (within_call _)).imp ?_ ?_
      · rintro - m' ⟨⟨p, heffect, -, hp⟩ | ⟨-, body, hbody, hfull, hm'⟩, hpending⟩
        · have hsame : m'.engine.load = m1.engine.load := by
            refine Engine.load_effect ?_ heffect fun heq => hend (hp heq)
            rw [hm1.engine]
            exact hm.engine.active.move hspot.next
          have := owed_le m'
          refine ⟨by rw [heffect.limit, hm1.engine], Or.inr ⟨by omega, ?_⟩⟩
          rw [hsame, hm1.engine]
          exact Nat.lt_of_le_of_lt (Nat.le_add_right _ _) hload
        · -- what the word adds weighs less than the call instruction did
          have hentered := Engine.load_entered hbody (by rw [hm1.engine]; exact hlimit) hfull
          have := owed_le m'
          rw [hm1.engine] at hentered
          refine ⟨by rw [hm'.engine, hm1.engine]; rfl, Or.inr ⟨by omega, ?_⟩⟩
          rw [hm'.engine, hm1.engine]
          exact Nat.lt_trans hentered hload
      · rintro i m' (hhalt | ⟨what, rfl, -, rfl⟩)
        · exact Or.inl hhalt
        · exact Or.inr ⟨what, rfl, by rw [hm1.engine], Or.inr ⟨by omega, Nat.zero_lt_of_lt hload⟩⟩

lemma owed_recover (what : Fault) :
    Does (recover what) m
      (fun _ m' => m'.engine.limit = m.engine.limit ∧ m'.owed ≤ m.pending + 1 ∧ m'.engine.load = 0)
      (fun i _ => ∃ cause, i = .halt cause) := by
  rw [recover, does_bind]
  refine ((talks_note _ _ m).within (within_note _ _)).imp ?_ fun i m' hi => hi.1
  rintro - m1 ⟨⟨hengine1, -⟩, hpending1⟩
  rw [does_bind]
  refine ((talks_report _ m1).within (within_report _)).imp ?_ fun i m' hi => hi.1
  rintro - m2 ⟨⟨hengine2, -⟩, hpending2⟩
  rw [does_modifyEngine]
  refine ⟨by simp only [hengine2, hengine1], ?_, rfl⟩
  rw [owed_of_top rfl]
  change m2.pending ≤ _
  omega

lemma descends_tick (hm : m.IsSound) (hlimit : 0 < m.engine.limit)
    (hrunning : m.engine.running = true) :
    Does (tick .background) m
      (fun context m' => context = .background ∧ m'.engine.limit = m.engine.limit ∧ Descends m m')
      (fun i _ => ∃ cause, i = .halt cause) := by
  have h := descends_step hm hlimit hrunning
  cases hstep : step m with
  | ok _ m1 => exact does_of_ok (tick_of_ok hstep) ⟨rfl, h.of_ok hstep⟩
  | error i m1 =>
      rcases h.of_error hstep with ⟨cause, rfl⟩ | ⟨what, rfl, hlimit1, hless⟩
      · exact does_of_error (tick_of_halt hstep) ⟨cause, rfl⟩
      · refine Does.congr ?_ (tick_of_fault hstep)
        rw [does_bind]
        refine (owed_recover what).imp ?_ fun i m' hi => hi
        rintro - m2 ⟨hlimit2, howed, hload⟩
        refine ⟨rfl, hlimit2.trans hlimit1, ?_⟩
        rcases hless with hless | ⟨hless, hpos⟩
        · exact Or.inl (by omega)
        · exact Or.inr ⟨by omega, by omega⟩

/-! ## A whole run -/

/-- Executing code comes to an end: the machine is stopped or the session halted, and more fuel
makes no difference. -/
def Ends (m : Machine) : Prop :=
  ∃ enough,
    (∃ m', m'.engine.running = false ∧ ∀ fuel ≥ enough, exec fuel .background m = .ok true m') ∨
    (∃ cause m', ∀ fuel ≥ enough, exec fuel .background m = .error (.halt cause) m')

lemma ends_of_stopped (h : m.engine.running = false) : m.Ends :=
  ⟨0, Or.inl ⟨m, h, fun fuel _ => exec_stopped h fuel⟩⟩

lemma ends_of_halt {cause : Option Failure} (hrunning : m.engine.running = true)
    (htick : tick .background m = .error (.halt cause) m') : m.Ends := by
  refine ⟨1, Or.inr ⟨cause, m', fun fuel hfuel => ?_⟩⟩
  obtain ⟨fuel, rfl⟩ := Nat.exists_eq_add_of_le' hfuel
  exact exec_broken hrunning htick fuel

lemma Ends.of_tick (h : m'.Ends) (hrunning : m.engine.running = true)
    (htick : tick .background m = .ok .background m') : m.Ends := by
  have hexec : ∀ {r : Result Bool} {enough : ℕ},
      (∀ fuel ≥ enough, exec fuel .background m' = r) →
        ∀ fuel ≥ enough + 1, exec fuel .background m = r := by
    intro r enough hr fuel hfuel
    obtain ⟨fuel, rfl⟩ := Nat.exists_eq_add_of_le' (Nat.le_trans (Nat.le_add_left 1 enough) hfuel)
    rw [exec_tick hrunning htick]
    exact hr fuel (Nat.le_of_succ_le_succ hfuel)
  obtain ⟨enough, ⟨m2, hstopped, hm2⟩ | ⟨cause, m2, hm2⟩⟩ := h
  · exact ⟨enough + 1, Or.inl ⟨m2, hstopped, hexec hm2⟩⟩
  · exact ⟨enough + 1, Or.inr ⟨cause, m2, hexec hm2⟩⟩

/-- What is left to be read counts first, and then what is left to be executed. -/
lemma wellFounded_descends : WellFounded fun m' m : Machine => Descends m m' := by
  have hlex : WellFounded (Prod.Lex (· < ·) (· < ·) : ℕ × ℕ → ℕ × ℕ → Prop) :=
    WellFounded.prod_lex Nat.lt_wfRel.wf Nat.lt_wfRel.wf
  refine Subrelation.wf ?_ (InvImage.wf (fun m : Machine => (m.owed, m.engine.load)) hlex)
  intro m' m h
  rcases h with hless | ⟨hle, hless⟩
  · exact Prod.Lex.left _ _ hless
  · rcases Nat.lt_or_eq_of_le hle with hlt | heq
    · exact Prod.Lex.left _ _ hlt
    · rw [InvImage, heq]
      exact Prod.Lex.right _ hless

/-- **The run lemma.** -/
lemma ends_of_isSound (hm : m.IsSound) (hlimit : 0 < m.engine.limit) : m.Ends := by
  induction m using wellFounded_descends.induction with
  | _ m ih =>
      cases hrunning : m.engine.running with
      | false => exact ends_of_stopped hrunning
      | true =>
          have hdescends := descends_tick hm hlimit hrunning
          cases htick : tick .background m with
          | error i m' =>
              obtain ⟨cause, rfl⟩ := hdescends.of_error htick
              exact ends_of_halt hrunning htick
          | ok context m' =>
              obtain ⟨rfl, hlimit', hless⟩ := hdescends.of_ok htick
              have hm' := (isSound_tick hm .background).of_ok htick
              exact (ih m' hless hm' (by rw [hlimit']; exact hlimit)).of_tick hrunning htick

end Machine

/-! ## The loops inside one instruction -/

section Loops

variable {σ ρ : Type} {next : σ → σ → Prop} {result : σ → ρ} {bound : σ → ℕ}

/-- Exactly `n` rounds of a loop lead from one state to another. -/
inductive Rounds (next : σ → σ → Prop) : ℕ → σ → σ → Prop where
  | zero (a : σ) : Rounds next 0 a a
  | succ {n : ℕ} {a b c : σ} (hab : next a b) (hbc : Rounds next n b c) : Rounds next (n + 1) a c

/-- From every state, a loop reaches in at most `bound` rounds a state from which it does not go on,
and its result is what it is from there. -/
def LoopEnds (next : σ → σ → Prop) (result : σ → ρ) (bound : σ → ℕ) : Prop :=
  ∀ a, ∃ n ≤ bound a, ∃ b, Rounds next n a b ∧ (∀ c, ¬ next b c) ∧ result a = result b

lemma loopEnds_of_decreasing (hbound : ∀ a b, next a b → bound b < bound a)
    (hresult : ∀ a b, next a b → result a = result b) : LoopEnds next result bound := by
  intro a
  induction hk : bound a using Nat.strongRecOn generalizing a with
  | ind k ih =>
      by_cases hnext : ∃ b, next a b
      · obtain ⟨b, hab⟩ := hnext
        have hless := hbound a b hab
        obtain ⟨n, hn, c, hbc, hstuck, hc⟩ := ih (bound b) (by omega) b rfl
        exact ⟨n + 1, by omega, c, .succ hab hbc, hstuck, (hresult a b hab).trans hc⟩
      · exact ⟨0, Nat.zero_le _, a, .zero a, fun c hac => hnext ⟨c, hac⟩, rfl⟩

end Loops

namespace Machine

variable {m m' : Machine}

/-- The prompt instruction goes on with the next word. -/
def NextWord (m m' : Machine) : Prop := m.engine.running = true ∧ read m = .ok true m'

/-- The name of a definition is looked for on the next line. -/
def NextLine (m m' : Machine) : Prop := nextWord m = .ok none m'

lemma loopEnds_prompt : LoopEnds NextWord prompt pending :=
  loopEnds_of_decreasing (fun _ _ h => pending_of_read h.2) fun _ _ h => prompt_again h.1 h.2

lemma loopEnds_nextName : LoopEnds NextLine nextName pending := by
  refine loopEnds_of_decreasing (fun m m' h => ?_) fun m m' h => ?_
  · have := pending_of_nextWord h
    simp only [Option.isSome_none, Bool.false_eq_true, if_false] at this
    omega
  · exact nextName_of_line h

end Machine

namespace Source

variable {ε : Type}

/-- The first of the queued streams is at its end, so that the next one is tried. -/
def NextStream (hooks : Hooks ε) (a b : List Stream × Source × ε) : Prop :=
  ∃ stream, a.1 = stream :: b.1 ∧
    b.2.1 = { a.2.1 with queue := b.1, current := some stream, last := { name := stream.name } } ∧
    b.2.1.attempt hooks stream a.2.2 = .ended b.2.2

lemma loopEnds_readQueued (hooks : Hooks ε) :
    LoopEnds (NextStream hooks) (fun a => readQueued hooks a.1 a.2.1 a.2.2)
      (fun a => a.1.length) := by
  refine loopEnds_of_decreasing ?_ ?_
  · rintro a b ⟨stream, hqueue, -⟩
    rw [hqueue]
    exact Nat.lt_succ_self _
  · rintro ⟨queue, src, env⟩ ⟨queue', src', env'⟩ ⟨stream, hqueue, hsrc, hended⟩
    dsimp only at hqueue hsrc hended ⊢
    subst hqueue hsrc
    rw [readQueued]
    simp only [hended]

end Source

namespace Machine

/-- **Every session comes to an end.**  A new machine with a limit on its return stack executes
finitely many instructions, whatever it is given to read and to write to; and each of them takes
finitely many rounds of each of the loops in it: over the words of a line, over lines to a name, and
over streams to a line. -/
theorem session_terminates {settings : List Setting} {m₀ : Machine}
    (hnew : create settings = .ok m₀) (hlimit : 0 < m₀.engine.limit) :
    (m₀.indent true).Ends ∧ LoopEnds NextWord prompt pending ∧ LoopEnds NextLine nextName pending ∧
      ∀ (ε : Type) (hooks : Hooks ε), LoopEnds (Source.NextStream hooks)
        (fun a => Source.readQueued hooks a.1 a.2.1 a.2.2) (fun a => a.1.length) := by
  have hm₀ := (fresh_create hnew).isSound
  refine ⟨ends_of_isSound ⟨hm₀.engine, hm₀.input⟩ hlimit, loopEnds_prompt, loopEnds_nextName, ?_⟩
  exact fun _ hooks => Source.loopEnds_readQueued hooks

/-- A word that calls itself, and an output that fails. -/
theorem session_terminates_of_recursion :
    ∃ m₀, create [.input { name := [], lines := [utf8 ": f f . ;\n", utf8 "f .\n"] } none,
        .output (.direct (Device.limited (some 3) false none)), .limit 5] = .ok m₀ ∧
      0 < m₀.engine.limit ∧ (m₀.indent true).Ends := by
  obtain ⟨m₀, hnew⟩ : ∃ m₀, create
      [.input { name := [], lines := [utf8 ": f f . ;\n", utf8 "f .\n"] } none,
      .output (.direct (Device.limited (some 3) false none)), .limit 5] = .ok m₀ := ⟨_, rfl⟩
  have hlimit : 0 < m₀.engine.limit := by
    cases hnew
    decide
  exact ⟨m₀, hnew, hlimit, (session_terminates hnew hlimit).1⟩

end Machine

end ColonMachine
