import Mathlib.Data.List.Chain
import Mathlib.Data.List.Induction
import ColonMachine.Proofs.Abandonment

/-!
# The return stack is the chain of calls

A frame of the return stack is a function and a counter, and nothing marks it as the trace of a
call.  Still, between two instructions the frames tell exactly how the machine came to where it is.
The oldest is left by the prompt of the top level loop.  Each of the others is left by a finished
word, its counter stands on the operand of a call instruction, and that operand names the word which
comes next (`Engine.Calling`).

Opcodes and operands are bytes alike, so which bytes are call instructions depends on where
instructions begin.  `Code.Boundary` says that of any code, byte by byte from the front.

No word calls a newer one, hence the ids never increase along the chain.
-/

namespace ColonMachine

/-! ## Where instructions begin -/

/-- An instruction begins at the front of code, and behind every instruction and the operand it may
have. -/
inductive Code.Boundary (code : List Code) : ℕ → Prop where
  | front : Boundary code 0
  | behind {pc : ℕ} {byte : Code} (h : Boundary code pc) (hbyte : code[pc]? = some byte) :
      Boundary code (pc + if byte.hasOperand then 2 else 1)

namespace Instr

lemma hasOperand_head (i : Instr) :
    ∃ arg, i.bytes = [i.bytes.headI, arg] ∧ i.bytes.headI.hasOperand = true := by
  cases i with
  | call callee => exact ⟨callee, rfl, rfl⟩
  | push n => exact ⟨n, rfl, rfl⟩

/-- Behind whole instructions another one begins.  The induction takes the last of them off. -/
lemma boundary_assemble (past : List Instr) (tail : List Code) :
    Code.Boundary (assemble past ++ tail) (2 * past.length) := by
  induction past using List.reverseRecOn generalizing tail with
  | nil => exact .front
  | append_singleton past i ih =>
      obtain ⟨arg, hbytes, hoperand⟩ := i.hasOperand_head
      have hcode : assemble (past ++ [i]) ++ tail = assemble past ++ (i.bytes ++ tail) := by
        simp [assemble_cons]
      have hbyte : (assemble past ++ (i.bytes ++ tail))[2 * past.length]? = some i.bytes.headI := by
        rw [List.getElem?_append_right (by simp), length_assemble, Nat.sub_self, hbytes]
        rfl
      have hnext := (ih (i.bytes ++ tail)).behind hbyte
      rw [if_pos hoperand] at hnext
      rw [hcode, List.length_append, List.length_singleton, Nat.mul_add]
      exact hnext

end Instr

/-! ## Frames -/

namespace Engine

/-- The function `id` is `f`, a word that was typed and whose definition is closed. -/
structure FinishedWord (e : Engine) (id : FuncId) (f : Function) : Prop where
  user : firstUserId ≤ id
  closed : e.defining ≠ some id
  get : e.dict.get? id = some f
  finished : f.IsFinished

/-- The frame was left by a call of `callee`: its counter stands on the operand of a call
instruction of a finished word, and the operand names `callee`. -/
def Calling (e : Engine) (frame : Frame) (callee : FuncId) : Prop :=
  ∃ f k arg, e.FinishedWord frame.fn f ∧ Code.Boundary f.code k ∧
    f.code[k]? = some Opcode.call.code ∧ f.code[k + 1]? = some arg ∧ frame.pc = k + 1 ∧
    Code.callee arg = callee

end Engine

namespace Sound

variable {e : Engine} {id : FuncId} {pc : ℤ} {past rest : List Instr} {frames : List Frame}

lemma finishedWord (h : Sound e) {body : List Instr} (hbody : e.dict.Finished id body) :
    ∃ f, e.FinishedWord id f ∧ f.code = Instr.assemble body ++ [Opcode.ret.code] := by
  have hclosed : e.defining ≠ some id := fun hopen => h.not_finished hopen hbody
  obtain ⟨huser, f, hget, hcode⟩ := hbody
  exact ⟨f, ⟨huser, hclosed, hget, body, hcode⟩, hcode⟩

/-- Between two instructions of a finished word, the next one begins behind the counter. -/
lemma boundary (h : Sound e) (hspot : Spot e.dict id pc past rest) :
    ∃ f k, e.FinishedWord id f ∧ Code.Boundary f.code k ∧ k < f.code.length ∧ pc + 1 = (k : ℕ) := by
  obtain ⟨f, hf, hcode⟩ := h.finishedWord hspot.finished
  have hpc := hspot.counter
  refine ⟨f, 2 * past.length, hf, ?_, ?_, by omega⟩
  · rw [hcode, Instr.assemble_append, List.append_assoc]
    exact Instr.boundary_assemble past _
  · rw [hcode, List.length_append, Instr.length_assemble, List.length_append, List.length_singleton]
    omega

/-- A counter right behind a call stands on its operand. -/
lemma calling (h : Sound e) {callee : Code}
    (hspot : Spot e.dict id pc (past ++ [.call callee]) rest) :
    e.Calling ⟨id, pc⟩ (Code.callee callee) ∧ Code.callee callee ≤ id := by
  obtain ⟨f, hf, hcode⟩ := h.finishedWord hspot.finished
  have hpc := hspot.counter
  rw [List.append_assoc, Instr.assemble_append, List.append_assoc, Instr.assemble_append,
    List.append_assoc] at hcode
  have hbytes : ∀ k, f.code[2 * past.length + k]?
      = ([Opcode.call.code, callee] ++ (Instr.assemble rest ++ [Opcode.ret.code]))[k]? := by
    intro k
    rw [hcode, List.getElem?_append_right (by simp), Instr.length_assemble, Nat.add_sub_cancel_left]
    rfl
  refine ⟨⟨f, 2 * past.length, callee, hf, ?_, hbytes 0, hbytes 1, ?_, rfl⟩, ?_⟩
  · rw [hcode]
    exact Instr.boundary_assemble past _
  · rw [hpc, List.length_append, List.length_singleton]
    push_cast
    omega
  · exact (h.below hspot.finished callee (by simp)).1

/-- The frames of a word that is running, oldest first: one of the top level loop, and then one for
each call. -/
lemma calls (h : Sound e) (hactive : Active e.dict id pc frames) (hword : id ≠ bootId) :
    ∃ calls : List Frame, frames.reverse = ⟨bootId, 0⟩ :: calls ∧
      List.IsChain (fun outer inner : Frame => e.Calling outer inner.fn ∧ inner.fn ≤ outer.fn)
        (calls ++ [⟨id, pc⟩]) := by
  induction hactive with
  | top => exact absurd rfl hword
  | called => exact ⟨[], rfl, .singleton _⟩
  | @nested id caller pc back _ _ before after callee frames _ hcaller hcallee _ ih =>
      obtain ⟨calls, hframes, hchain⟩ := ih hcaller.finished.ne_boot
      have hcall := h.calling hcaller
      rw [hcallee] at hcall
      refine ⟨calls ++ [⟨caller, back⟩], by rw [List.reverse_cons, hframes]; rfl, ?_⟩
      rw [List.append_assoc]
      exact List.isChain_append_cons_cons.mpr ⟨hchain, hcall, .singleton _⟩

end Sound

namespace Machine

variable {m m' m₀ : Machine}

lemma Changes.limit (h : Changes m m') : m'.engine.limit = m.engine.limit := by
  refine h.keeps (P := fun m' => m'.engine.limit = m.engine.limit) rfl ?_
  intro m1 m2 hlimit hchange
  cases hchange with
  | engine hupdate => cases hupdate <;> exact hlimit
  | _ => exact hlimit

lemma Reaches.limit (h : m₀.Reaches m) (hm₀ : m₀.IsSound) : m.engine.limit = m₀.engine.limit := by
  obtain ⟨fuel, context, stopped, hexec⟩ := h
  have hchanges := changes_exec fuel context (m := m₀.indent true) hm₀.input
  rw [hexec] at hchanges
  exact hchanges.limit

/-- **The return stack is the chain of calls.**  Between two instructions of a run of a new machine,
either the top level loop is running and nothing was called, or a finished word is, and the return
stack, oldest frame first, leads from the prompt of the loop to it.  No function on the way is newer
than one before it, and if there is a limit, the return stack keeps to it. -/
theorem return_stack_of_calls {settings : List Setting} (hnew : create settings = .ok m₀)
    (hreach : m₀.Reaches m) :
    (m.engine.fn = bootId ∧ (m.engine.pc = -1 ∨ m.engine.pc = 0) ∧ m.engine.frames = [] ∨
      (∃ f k, m.engine.FinishedWord m.engine.fn f ∧ Code.Boundary f.code k ∧ k < f.code.length ∧
        m.engine.pc + 1 = (k : ℕ)) ∧
      ∃ calls : List Frame, m.engine.frames.reverse = ⟨bootId, 0⟩ :: calls ∧
        List.IsChain (fun outer inner : Frame => m.engine.Calling outer inner.fn)
          (calls ++ [⟨m.engine.fn, m.engine.pc⟩]) ∧
        (calls.map (·.fn) ++ [m.engine.fn]).Pairwise (· ≥ ·)) ∧
    (0 < m₀.engine.limit → m.engine.frames.length ≤ m₀.engine.limit) := by
  have hm₀ := (fresh_create hnew).isSound
  have hsound := (isSound_of_reaches hm₀ hreach).engine
  constructor
  · rcases hsound.active.inv with ⟨hfn, hframes, hpc⟩ | ⟨past, rest, _, _, hspot, -, -⟩
    · exact Or.inl ⟨hfn, hpc, hframes⟩
    · obtain ⟨calls, hframes, hchain⟩ := hsound.calls hsound.active hspot.finished.ne_boot
      refine Or.inr ⟨hsound.boundary hspot, calls, hframes, hchain.imp fun _ _ h => h.1, ?_⟩
      have hids :
          List.IsChain (· ≥ ·) (List.map Frame.fn (calls ++ [⟨m.engine.fn, m.engine.pc⟩])) :=
        (List.isChain_map _).mpr (hchain.imp fun _ _ h => h.2)
      rw [List.map_append] at hids
      exact hids.pairwise
  · intro hlimit
    rw [← hreach.limit hm₀] at hlimit ⊢
    exact hsound.depth hlimit

/-- A word that calls itself, where the first of these calls has been entered. -/
theorem return_stack_of_calls_nested :
    ∃ m₀ m, create [.written [] (.ok (utf8 ": f 0 f ;\nf\n")), .limit 2] = .ok m₀ ∧ m₀.Reaches m ∧
      m.engine.frames.reverse = [⟨bootId, 0⟩, ⟨16, 3⟩] ∧ m.engine.Calling ⟨16, 3⟩ 16 ∧
      m.engine.frames.length ≤ (2 : ℤ) := by
  obtain ⟨m₀, hnew⟩ : ∃ m₀, create [.written [] (.ok (utf8 ": f 0 f ;\nf\n")), .limit 2] = .ok m₀ :=
    ⟨_, rfl⟩
  obtain ⟨a, hline, b, hjump, c, hcall, d, hpush, m, hself, hrunning, hlimit, hframes, hfn⟩ :
      ∃ a, step (m₀.indent true) = .ok () a ∧ ∃ b, step a = .ok () b ∧ ∃ c, step b = .ok () c ∧
        ∃ d, step c = .ok () d ∧ ∃ m, step d = .ok () m ∧
        ((m₀.indent true).engine.running = true ∧ a.engine.running = true ∧
        b.engine.running = true ∧
          c.engine.running = true ∧ d.engine.running = true) ∧ m₀.engine.limit = 2 ∧
        m.engine.frames.reverse = [⟨bootId, 0⟩, ⟨16, 3⟩] ∧ m.engine.fn = 16 := by
    cases hnew
    refine ⟨_,
      (prompt_again rfl (read_of_word (w := utf8 ":") rfl ((dispatch_of_call rfl rfl rfl).trans
      (bind_of_ok (define_new (nextName_of_word rfl) rfl))))).trans ((prompt_again rfl rfl).trans
        ((prompt_again rfl rfl).trans ((prompt_again rfl rfl).trans (prompt_ended rfl rfl)))), ?_⟩
    refine ⟨_, rfl, _, prompt_ended rfl rfl, ?_⟩
    iterate 2 refine ⟨_, rfl, ?_⟩
    exact ⟨⟨rfl, rfl, rfl, rfl, rfl⟩, rfl, rfl, rfl⟩
  have hreach : m₀.Reaches m := reaches_iff_leads.mpr
    ((leads_of_step hrunning.1 hline).trans ((leads_of_step hrunning.2.1 hjump).trans
      ((leads_of_step hrunning.2.2.1 hcall).trans ((leads_of_step hrunning.2.2.2.1 hpush).trans
        (leads_of_step hrunning.2.2.2.2 hself)))))
  obtain ⟨hchain, hdepth⟩ := return_stack_of_calls hnew hreach
  rw [hlimit] at hdepth
  rcases hchain with ⟨hboot, -, -⟩ | ⟨-, calls, hcalls, hchain, -⟩
  · rw [hfn] at hboot
    cases hboot
  · rw [hframes] at hcalls
    cases hcalls
    have hcalling := (List.isChain_cons_cons.mp hchain).1
    rw [hfn] at hcalling
    exact ⟨m₀, m, hnew, hreach, hframes, hcalling, hdepth (by decide)⟩

end Machine

end ColonMachine
