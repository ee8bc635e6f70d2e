import ColonMachine.Command.Run
import ColonMachine.Proofs.Twins
import Mathlib.Data.List.Count

/-!
# Files are closed once

A command opens the files of its arguments in order.  If one of them cannot be opened, those before
it are closed again on the spot.  If all can be opened, they are handed to the session, which closes
them at its end.  What happens to a file is known by its position among the arguments.

* `openInputs_of_files` and `openInputs_of_refusal` are the two ways in which opening ends, and
  there is no third (`attempts_cases`).
* What is to be closed is laid down by the settings (`closers_create`), and nothing that a machine
  does changes it: an action **spares** the closers, by an induction over what actions are made of
  (`Composed.spares`), and so does a run (`closers_run`).
* So the session closes just the files, the last one first, whatever came of the run
  (`session_of_files`).

The main result is `files_closed_once`.
-/

namespace ColonMachine

/-! ## Opening -/

/-- Either all files can be opened, or there is a first that cannot. -/
lemma attempts_cases (attempts : List (Except Failure File)) :
    (∃ files : List File, attempts = files.map .ok) ∨
      ∃ (files : List File) (failure : Failure) (later : _),
        attempts = files.map .ok ++ .error failure :: later := by
  induction attempts with
  | nil => exact Or.inl ⟨[], rfl⟩
  | cons attempt attempts ih =>
      rcases attempt with failure | file
      · exact Or.inr ⟨[], failure, attempts, rfl⟩
      · rcases ih with ⟨files, rfl⟩ | ⟨files, failure, later, rfl⟩
        · exact Or.inl ⟨file :: files, rfl⟩
        · exact Or.inr ⟨file :: files, failure, later, rfl⟩

lemma openFrom_of_files (opened files : List File) : openFrom opened (files.map .ok)
    = (.ok (opened ++ files), (List.range' opened.length files.length).map .opened) := by
  induction files generalizing opened with
  | nil => simp [openFrom]
  | cons file files ih => simp [openFrom, ih, List.range'_succ]

lemma openFrom_of_refusal (opened files : List File) (failure : Failure)
    (later : List (Except Failure File)) :
    openFrom opened (files.map .ok ++ .error failure :: later)
      = (.error failure, (List.range' opened.length files.length).map .opened ++
          .refused (opened.length + files.length) ::
            (List.range (opened.length + files.length)).map .closed) := by
  induction files generalizing opened with
  | nil => simp [openFrom]
  | cons file files ih => simp [openFrom, ih, List.range'_succ, Nat.add_assoc, Nat.add_comm 1]

lemma openInputs_of_files (files : List File) :
    openInputs (files.map .ok) = (.ok files, (List.range files.length).map .opened) := by
  simp [openInputs, openFrom_of_files, List.range_eq_range']

lemma openInputs_of_refusal (files : List File) (failure : Failure)
    (later : List (Except Failure File)) :
    openInputs (files.map .ok ++ .error failure :: later)
      = (.error failure, (List.range files.length).map .opened ++
          .refused files.length :: (List.range files.length).map .closed) := by
  simp [openInputs, openFrom_of_refusal, List.range_eq_range']

/-! ## What is to be closed -/

namespace Setting

/-- What a setting adds to what is to be closed. -/
def closer? : Setting → Option Closer
  | input _ closer => closer
  | _ => none

/-- The setting is a single one that cannot fail. -/
def Plain : Setting → Prop
  | written .. | group _ => False
  | _ => True

lemma apply_of_plain {setting : Setting} (h : setting.Plain) (m : Machine) :
    ∃ m', apply m setting = .ok m' ∧ m'.closers = m.closers ++ setting.closer?.toList := by
  have happly : apply m setting = applyOne m setting := by
    cases setting with
    | group members => exact h.elim
    | _ => simp only [apply]
  rw [happly]
  cases setting with
  | input stream closer => exact ⟨_, rfl, rfl⟩
  | written name text => exact h.elim
  | _ => exact ⟨_, rfl, (List.append_nil _).symm⟩

lemma applyAll_of_plain {settings : List Setting} (h : ∀ s ∈ settings, s.Plain) (m : Machine) :
    ∃ m', applyAll m settings = .ok m' ∧ m'.closers = m.closers ++ settings.filterMap closer? := by
  induction settings generalizing m with
  | nil => exact ⟨m, by simp only [applyAll], (List.append_nil _).symm⟩
  | cons setting settings ih =>
      obtain ⟨m1, happly, hone⟩ := apply_of_plain (h setting List.mem_cons_self) m
      obtain ⟨m', hall, hrest⟩ := ih (fun s hs => h s (List.mem_cons_of_mem _ hs)) m1
      refine ⟨m', by simp only [applyAll, happly, hall], ?_⟩
      rw [hrest, hone]
      cases hcloser : setting.closer? <;> simp [hcloser]

end Setting

namespace Machine

lemma closers_create {settings : List Setting} (h : ∀ s ∈ settings, s.Plain) :
    ∃ m, create settings = .ok m ∧ m.closers = settings.filterMap Setting.closer? := by
  obtain ⟨m, happly, hclosers⟩ := Setting.applyAll_of_plain h initial
  exact ⟨m.ready, by rw [create_eq_applyAll, happly]; rfl, hclosers⟩

/-! ## What a run leaves to be closed -/

variable {α β : Type}

/-- However it ends, the action leaves what is to be closed as it was. -/
def Spares (act : Act α) : Prop := ∀ m, (Result.machine (act m)).closers = m.closers

section Actions

variable {act : Act α}

lemma Spares.of_ok (h : Spares act) {m m' : Machine} {a : α} (hact : act m = .ok a m') :
    m'.closers = m.closers := by
  have hm := h m
  rwa [hact] at hm

lemma Spares.of_error (h : Spares act) {m m' : Machine} {i : Interrupt}
    (hact : act m = .error i m') :
    m'.closers = m.closers := by
  have hm := h m
  rwa [hact] at hm

lemma Spares.bind {next : α → Act β} (h : Spares act) (hnext : ∀ a, Spares (next a)) :
    Spares (act >>= next) := by
  intro m
  rcases hact : act m with ⟨a, m1⟩ | ⟨i, m1⟩
  · rw [bind_of_ok hact, hnext a m1, h.of_ok hact]
  · rw [bind_of_error hact]
    exact h.of_error hact

lemma Spares.attempt (h : Spares act) : Spares (attempt act) := by
  intro m
  rw [ColonMachine.attempt]
  rcases hact : act m with ⟨a, m1⟩ | ⟨what | cause | payload | _, m1⟩
  · exact h.of_ok hact
  all_goals exact h.of_error hact

/-- The induction is over what is left to be read. -/
lemma Spares.loop {body : Act (Option α)} (h : Spares body) (hrepeats : Repeats body act) :
    Spares act := by
  intro m
  induction hpending : m.pending using Nat.strongRecOn generalizing m with
  | ind n ih =>
      rcases hbody : body m with ⟨_ | a, m1⟩ | ⟨i, m1⟩
      · obtain ⟨hagain, hless⟩ := hrepeats.again hbody
        rw [hagain, ih _ (hpending ▸ hless) m1 rfl, h.of_ok hbody]
      · rw [hrepeats.done hbody]
        exact h.of_ok hbody
      · rw [hrepeats.broken hbody]
        exact h.of_error hbody

end Actions

@[simp] lemma closers_noted (mark : Text) (message : Machine → Text) (m : Machine) :
    (noted mark message m).closers = m.closers := by
  rw [noted]
  split <;> rfl

lemma spares_modify {f : Machine → Machine} (h : ∀ m, (f m).closers = m.closers) :
    Spares (modify f : Act Unit) := h

lemma spares_note (mark : Text) (message : Machine → Text) : Spares (note mark message) :=
  spares_modify (closers_noted mark message)

lemma spares_speak (act : Console → Option Failure × Console) : Spares (speak act) := fun _ => rfl

lemma spares_halt (cause : Option Failure) : Spares (halt cause : Act α) :=
  (spares_speak _).bind fun _ => (spares_note _ _).bind fun _ _ => rfl

lemma spares_haltIf (failure? : Option Failure) : Spares (haltIf failure?) := by
  cases failure? with
  | none => exact fun m => rfl
  | some failure => exact spares_halt _

lemma spares_write (t : Text) : Spares (write t) := (spares_speak _).bind spares_haltIf

lemma spares_print (t : Text) : Spares (print t) := (spares_speak _).bind spares_haltIf

lemma spares_report (message : Text) : Spares (report message) := by
  refine (spares_note _ _).bind fun _ m => ?_
  refine ((spares_write _).bind fun _ => (spares_write _).bind fun _ => ?_) m
  exact (spares_modify fun _ => rfl).bind fun _ => spares_modify fun _ => rfl

lemma spares_nextWord : Spares nextWord := by
  refine Spares.bind (fun m => rfl) fun word => ?_
  rcases word with failure | _ | word
  · exact spares_halt _
  · exact fun m => rfl
  · exact (spares_note _ _).bind fun _ m => rfl

/-- **The step lemma.**  No action touches what is to be closed. -/
lemma Composed.spares {act : Act α} (h : Composed act) : Spares act := by
  induction h with
  | pure a => exact fun m => rfl
  | bind _ _ ih ihnext => exact ih.bind ihnext
  | look _ _ ih => exact fun m => ih m m
  | throw _ => exact fun m => rfl
  | engine f => exact fun m => rfl
  | prompting on => exact fun m => rfl
  | note mark message => exact spares_note mark message
  | write t => exact spares_write t
  | print t => exact spares_print t
  | report message => exact spares_report message
  | nextWord => exact spares_nextWord
  | attempt _ ih => exact ih.attempt
  | loop _ hrepeats ih => exact ih.loop hrepeats

lemma spares_tick (context : Context) : Spares (tick context) := by
  intro m
  rw [tick_eq]
  exact (composed_instruct.spares.bind fun _ => (spares_haltIf _).bind fun _ m => rfl) m

/-- **The run lemma.**  The induction is over the instructions. -/
lemma spares_exec (fuel : ℕ) (context : Context) : Spares (exec fuel context) := by
  induction fuel generalizing context with
  | zero => exact fun m => rfl
  | succ fuel ih =>
      intro m
      by_cases hrunning : m.engine.running = true
      · rw [exec_bind hrunning]
        exact (spares_tick context).bind ih m
      · rw [exec_stopped (by simpa using hrunning)]
        rfl

lemma spares_runOut (fuel : ℕ) (context : Context) : Spares (runOut fuel context) := by
  have hindented : Spares (execIndented fuel context) := by
    intro m
    rw [execIndented]
    rcases hexec : exec fuel context (m.indent true) with ⟨stopped, m1⟩ | ⟨i, m1⟩
    · have hm1 := (spares_exec fuel context).of_ok hexec
      exact hm1
    · have hm1 := (spares_exec fuel context).of_error hexec
      exact hm1
  refine hindented.bind fun stopped => ?_
  cases stopped with
  | false => exact fun m => rfl
  | true => exact (spares_speak _).bind fun _ => (spares_haltIf _).bind fun _ _ => rfl

lemma closers_settle (failure : Failure) (m : Machine) :
    (settle failure m).2.closers = m.closers := by
  rw [settle]
  rcases failure.halt?.getD (some failure) with _ | failure
  · rfl
  · dsimp only
    split_ifs <;> simp

/-- **However a run ends, there is as much to be closed as before.** -/
lemma closers_run (fuel : ℕ) (context : Context) (m : Machine) :
    (run fuel context m).2.closers = m.closers := by
  rw [run]
  rcases hrunOut : runOut fuel context m with ⟨stopped, m1⟩ | ⟨i, m1⟩
  · cases stopped <;> exact (spares_runOut fuel context).of_ok hrunOut
  · have hm1 := (spares_runOut fuel context).of_error hrunOut
    dsimp only
    cases i.ending.guarded (utf8 "VM") with
    | none => exact hm1
    | some failure => exact (closers_settle failure m1).trans hm1

/-- After everything has been closed, there is nothing to close. -/
lemma close_close (m : Machine) : m.close.2.2.close = ([], [], m.close.2.2) := rfl

end Machine

/-! ## The command -/

namespace FileEvent

/-- No file was opened twice, and each that was opened was closed once. -/
def Settled (events : List FileEvent) : Prop :=
  ∀ k, events.count (.closed k) = events.count (.opened k) ∧ events.count (.opened k) ≤ 1

section Counts

variable (k n : ℕ)

@[simp] lemma count_opened :
    ((List.range n).map opened).count (.opened k) = if k < n then 1 else 0 := by
  rw [List.count_map_of_injective _ _ fun _ _ h => opened.inj h, List.count_range]

@[simp] lemma count_closed :
    ((List.range n).map closed).count (.closed k) = if k < n then 1 else 0 := by
  rw [List.count_map_of_injective _ _ fun _ _ h => closed.inj h, List.count_range]

@[simp] lemma count_closed_opened : ((List.range n).map opened).count (.closed k) = 0 := by
  simp [List.count_eq_zero]

@[simp] lemma count_opened_closed : ((List.range n).map closed).count (.opened k) = 0 := by
  simp [List.count_eq_zero]

end Counts

lemma settled_nil : Settled [] := fun _ => by simp

lemma settled_of_refusal (n : ℕ) :
    Settled ((List.range n).map opened ++ refused n :: (List.range n).map closed) := by
  intro k
  by_cases hk : k < n <;> simp [hk]

lemma settled_of_session (n : ℕ) :
    Settled ((List.range n).map opened ++ ((List.range n).map closed).reverse) := by
  intro k
  rw [List.count_append, List.count_append, List.count_reverse, List.count_reverse]
  by_cases hk : k < n <;> simp [hk]

end FileEvent

namespace Command

variable {world : World} {flags : Flags} {files : List File}

lemma plain_settings (world : World) (flags : Flags) (config : Config) (files : List File) :
    ∀ s ∈ settings world flags config files, s.Plain := by
  intro s hs
  simp only [settings, List.mem_append, List.mem_map, List.mem_cons, List.not_mem_nil,
    or_false] at hs
  rcases hs with (((hs | ⟨entry, -, rfl⟩) | rfl | rfl | rfl | rfl) | hs) | hs
  · split_ifs at hs <;> simp_all [Setting.Plain]
  · trivial
  · trivial
  · trivial
  · trivial
  · trivial
  · split_ifs at hs <;> simp_all [Setting.Plain]
  · split_ifs at hs <;> simp_all [Setting.Plain]

/-- Of all settings, only the files are to be closed. -/
lemma filterMap_closer?_settings (world : World) (flags : Flags) (config : Config)
    (files : List File) :
    (settings world flags config files).filterMap Setting.closer?
      = files.zipIdx.map fun (file, position) => { id := position, failure := file.closing } := by
  have hprelude :
      (if wantsPrelude flags config then [Setting.prelude] else []).filterMap Setting.closer?
        = [] := by
    split_ifs <;> rfl
  have hstyle :
      (if world.toTerminal then [Setting.style red] else []).filterMap Setting.closer? = [] := by
    split_ifs <;> rfl
  have htrace : (if flags.trace then [Setting.trace] else []).filterMap Setting.closer? = [] := by
    split_ifs <;> rfl
  simp only [settings, List.filterMap_append, hprelude, hstyle, htrace, List.filterMap_map]
  simp [Setting.closer?, fileSetting, Function.comp_def]

/-- What a command reports when all its files could be opened and the run has come to `outcome`. -/
structure Concluded (files : List File) (outcome : Machine.Outcome) (report : Report) : Prop where
  /-- All files were opened in order, and then each was closed once, the last one first. -/
  events : report.events = (List.range files.length).map .opened ++
    ((List.range files.length).map .closed).reverse
  /-- What the run fails with, the command fails with. -/
  failed : ∀ failure, outcome = .ended (some failure) → report.problem = some (.failed failure)
  /-- After a run that does not fail, the command fails with all failures to close, as they came. -/
  closing : outcome = .ended none → report.problem =
    if files.reverse.filterMap (·.closing) = [] then none
    else some (.unclosed (files.reverse.filterMap (·.closing)))
  finished : report.finished = true ↔ outcome ≠ .unfinished

/-- **The session closes just its files, whatever came of the run.** -/
lemma session_of_files {m : Machine} (fuel : ℕ) (world : World) (context : Context)
    (hclosers : m.closers = files.zipIdx.map fun (file, position) =>
      { id := position, failure := file.closing }) :
    let report := session fuel world context m
    Concluded files (m.run fuel context).1
      { report with events := (List.range files.length).map .opened ++ report.events } := by
  have hrun : (m.run fuel context).2.closers = _ := (m.closers_run fuel context).trans hclosers
  have hids : (m.run fuel context).2.closers.map (·.id) = List.range files.length := by
    rw [hrun, List.map_map, List.range_eq_range', ← List.zipIdx_map_snd]
    rfl
  have hfailures :
      (m.run fuel context).2.closers.filterMap (·.failure) = files.filterMap (·.closing) := by
    have hfiles : files.zipIdx.map Prod.fst = files := List.zipIdx_map_fst 0 files
    conv_rhs => rw [← hfiles]
    rw [hrun, List.filterMap_map, List.filterMap_map]
    rfl
  rw [session]
  generalize m.run fuel context = ran at hids hfailures
  obtain ⟨outcome, m'⟩ := ran
  simp only [Machine.close, List.filterMap_reverse, hfailures]
  refine ⟨?_, ?_, ?_, ?_⟩
  · simp only [← hids, List.map_reverse, List.map_map]
    rfl
  · rintro failure rfl
    rfl
  · rintro rfl
    simp only [List.filterMap_reverse, List.isEmpty_iff]
  · cases outcome <;> simp

lemma perform_of_files (fuel : ℕ) (context : Context) (config : Config)
    (hopen : (flags.files.zipIdx.map fun (name, position) => world.openFile position name)
      = files.map .ok) :
    ∃ m, Machine.create (settings world flags config files) = .ok m ∧
      Concluded files (m.run fuel context).1 (perform fuel world context flags config) := by
  obtain ⟨m, hcreate, hclosers⟩ := Machine.closers_create (plain_settings world flags config files)
  rw [filterMap_closer?_settings] at hclosers
  refine ⟨m, hcreate, ?_⟩
  simp only [perform, hopen, openInputs_of_files, hcreate]
  exact session_of_files fuel world context hclosers

lemma settled_perform (fuel : ℕ) (world : World) (context : Context) (flags : Flags)
    (config : Config) : FileEvent.Settled (perform fuel world context flags config).events := by
  rcases attempts_cases
      (flags.files.zipIdx.map fun (name, position) => world.openFile position name) with
    ⟨files, hopen⟩ | ⟨files, failure, later, hopen⟩
  · obtain ⟨m, -, hconcluded⟩ := perform_of_files fuel context config hopen
    rw [hconcluded.events]
    exact FileEvent.settled_of_session _
  · simp only [perform, hopen, openInputs_of_refusal]
    exact FileEvent.settled_of_refusal _

/-- A command touches no file, or does what its flags and its configuration say. -/
lemma run_cases (fuel : ℕ) (world : World) (arguments : List Text) :
    (run fuel world arguments).events = [] ∨ ∃ flags config, run fuel world arguments
      = perform fuel world (context world (nanoseconds flags config)) flags config := by
  rw [run]
  cases Flags.parse arguments with
  | error problem => exact Or.inl rfl
  | ok flags =>
      dsimp only
      split_ifs with hhelp
      · exact Or.inl rfl
      · cases loadConfig world flags.config with
        | error problem => exact Or.inl rfl
        | ok config => exact Or.inr ⟨flags, config, rfl⟩

/-- **Whatever is asked of a command, and whatever fails, it leaves no file open and closes none
twice.** -/
lemma settled_run (fuel : ℕ) (world : World) (arguments : List Text) :
    FileEvent.Settled (run fuel world arguments).events := by
  rcases run_cases fuel world arguments with hnone | ⟨flags, config, hrun⟩
  · rw [hnone]
    exact FileEvent.settled_nil
  · rw [hrun]
    exact settled_perform fuel world _ flags config

/-- **Files are closed once, whatever fails.**

* Either all files can be opened, and they are, in order; or at the first that cannot, each of those
  before it is closed once, no later one is tried, and the failure is that of the one.
* If all files can be opened, then whatever the flags and the configuration are, and however the run
  ends, each file is closed once, the last one first.  The command fails with what the run fails
  with, and else with all failures to close, in the order in which they came.
* A command touches no file, or does so for some flags and some configuration, with the time limit
  that they set.  No command whatsoever opens a file twice, or closes another than those it opened,
  or closes one twice.
* What has been closed has nothing left to close, also after another run. -/
theorem files_closed_once :
    (∀ attempts : List (Except Failure File),
      (∃ files : List File, attempts = files.map .ok ∧
        openInputs attempts = (.ok files, (List.range files.length).map .opened)) ∨
      ∃ (files : List File) (failure : Failure) (later : _),
        attempts = files.map .ok ++ .error failure :: later ∧
        openInputs attempts = (.error failure, (List.range files.length).map .opened ++
          .refused files.length :: (List.range files.length).map .closed)) ∧
    (∀ (fuel : ℕ) (world : World) (context : Context) (flags : Flags) (config : Config)
      (files : List File),
      (flags.files.zipIdx.map fun (name, position) => world.openFile position name)
        = files.map .ok →
      ∃ m, Machine.create (settings world flags config files) = .ok m ∧
        Concluded files (m.run fuel context).1 (perform fuel world context flags config)) ∧
    (∀ (fuel : ℕ) (world : World) (arguments : List Text),
      ((run fuel world arguments).events = [] ∨ ∃ flags config, run fuel world arguments
        = perform fuel world (context world (nanoseconds flags config)) flags config) ∧
      FileEvent.Settled (run fuel world arguments).events) ∧
    ∀ (m : Machine) (fuel : ℕ) (context : Context),
      let closed := m.close.2.2
      closed.close = ([], [], closed) ∧ (closed.run fuel context).2.close.1 = [] ∧
        (closed.run fuel context).2.close.2.1 = [] := by
  refine ⟨fun attempts => ?_, ?_, fun fuel world arguments =>
    ⟨run_cases fuel world arguments, settled_run fuel world arguments⟩,
    fun m fuel context => ⟨m.close_close, ?_⟩⟩
  · rcases attempts_cases attempts with ⟨files, rfl⟩ | ⟨files, failure, later, rfl⟩
    · exact Or.inl ⟨files, rfl, openInputs_of_files files⟩
    · exact Or.inr ⟨files, failure, later, rfl, openInputs_of_refusal files failure later⟩
  · intro fuel world context flags config files hopen
    exact perform_of_files fuel context config hopen
  · have hclosers : (m.close.2.2.run fuel context).2.closers = [] :=
      Machine.closers_run fuel context _
    rw [Machine.close, hclosers]
    exact ⟨rfl, rfl⟩

/-- A file that is named twice is opened twice, and both are closed; the first fails to.  That is
what the command fails with, unless the time limit passes at the second question. -/
theorem files_closed_once_of_twice :
    let file (position : ℕ) (name : Text) : File :=
      { stream := .ofText name (utf8 "1 .\n")
        closing := if position = 0 then some (.message (utf8 "already closed")) else none }
    let world : World :=
      { openFile := fun position name => .ok (file position name)
        contentAt := fun _ => .ok []
        input := .failing [] (utf8 "exit\n") (.message (utf8 "broken pipe"))
        clock := []
        expiry := fun _ => some 2 }
    let flags : Flags := { files := [utf8 "a", utf8 "a"] }
    let files := [file 0 (utf8 "a"), file 1 (utf8 "a")]
    (flags.files.zipIdx.map fun (name, position) => world.openFile position name)
        = files.map .ok ∧
      (∀ nanoseconds, ∃ m, Machine.create (settings world flags {} files) = .ok m ∧
        Concluded files (m.run 100 (context world nanoseconds)).1
          (perform 100 world (context world nanoseconds) flags {})) ∧
      (perform 100 world (context world 0) flags {}).problem
        = some (.unclosed [.message (utf8 "already closed")]) ∧
      (perform 100 world (context world 1) flags {}).problem
        = some (.failed .deadlineExceeded) ∧
      (perform 100 world (context world 1) flags {}).events
        = [.opened 0, .opened 1, .closed 1, .closed 0] := by
  intro file world flags files
  have hopen : (flags.files.zipIdx.map fun (name, position) => world.openFile position name)
      = files.map .ok := rfl
  have hconcluded := fun nanoseconds =>
    files_closed_once.2.1 100 world (context world nanoseconds) flags {} files hopen
  refine ⟨hopen, hconcluded, by decide +kernel, by decide +kernel, ?_⟩
  obtain ⟨m, -, h⟩ := hconcluded 1
  exact h.events

end Command

end ColonMachine
