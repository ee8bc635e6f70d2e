import ColonMachine.Proofs.Sinks
import Mathlib.Data.List.Basic

/-!
# Groups of settings

Settings are combined to groups, and groups to further groups, with nothing in the place of some.  A
machine does not notice: it is the one that the settings at the leaves make, from left to right.

**Opening groups.**  A group brings its members into the group around it, so whatever was combined
before is laid open when it is combined again (`members_combine`).  By induction over the tree, all
that is left of it are its leaves (`flatMap_members_combinedAll`), and the machine is made from the
very same setting (`combine_combinedAll`).  Groups that were not combined come to the same when they
are applied (`applyAll_allLeaves`).

**What a machine is set up with.**  That two machines are the same says little while nothing is said
about one of them.  `Setup` is what settings are there to lay down: the queue, what is to be closed,
where output goes, the prompts, the limit, the style and the log.  `Setup.after` is what a single
setting does to it, without outlets that are out of use and without positions among them: inputs
pile up, an output takes the place of all outlets before it, a tee is added to them, and of the
others the last one counts.  `map_setup_applyOne` is the step and `map_setup_applyAll` the
induction.

The main result is `groups_transparent`.
-/

namespace ColonMachine

/-! ## Opening groups -/

namespace Setting

variable {setting : Setting} {settings : List Setting}

mutual

/-- What a tree of settings comes to when each of its groups is combined from what its members come
to. -/
def combined : Setting → Setting
  | group members => combine (combinedAll members)
  | setting => setting

/-- What several trees of settings come to. -/
def combinedAll : List Setting → List Setting
  | [] => []
  | setting :: others => combined setting :: combinedAll others

end

/-- The setting is one by itself, neither a group nor nothing. -/
def Single : Setting → Prop
  | group _ | nothing => False
  | _ => True

/-- Induction over trees: the first one of a list is a group, or nothing, or a setting by itself. -/
lemma trees_induction {P : List Setting → Prop} (nil : P [])
    (group : ∀ inner others, P inner → P others → P (group inner :: others))
    (nothing : ∀ others, P others → P (nothing :: others))
    (single : ∀ setting others, setting.Single → P others → P (setting :: others)) :
    ∀ settings, P settings
  | [] => nil
  | .group inner :: others =>
      group inner others (trees_induction nil group nothing single inner)
        (trees_induction nil group nothing single others)
  | .nothing :: others => nothing others (trees_induction nil group nothing single others)
  | .input .. :: others | .written .. :: others | .prelude :: others | .output _ :: others
  | .tee _ :: others
  | .prompts _ :: others | .limit _ :: others | .style _ :: others | .trace _ :: others =>
      single _ others trivial (trees_induction nil group nothing single others)

lemma Single.members_eq (h : setting.Single) : setting.members = [setting] := by
  cases setting <;> simp_all [Single, members]

lemma Single.leaves_eq (h : setting.Single) : setting.leaves = [setting] := by
  cases setting <;> simp_all [Single, leaves]

lemma Single.combined_eq (h : setting.Single) : setting.combined = setting := by
  cases setting <;> simp_all [Single, combined]

lemma Single.apply_eq (h : setting.Single) (m : Machine) :
    apply m setting = applyOne m setting := by
  cases setting <;> simp_all [Single, apply]

/-- All leaves of a tree are settings by themselves. -/
lemma single_of_mem_allLeaves (settings : List Setting) :
    ∀ leaf ∈ allLeaves settings, leaf.Single := by
  induction settings using trees_induction with
  | nil => simp [allLeaves]
  | group inner others hinner hothers =>
      intro leaf hleaf
      rw [allLeaves, leaves, List.mem_append] at hleaf
      exact hleaf.elim (hinner leaf) (hothers leaf)
  | nothing others hothers => simpa [allLeaves, leaves] using hothers
  | single setting others hsingle hothers =>
      rw [allLeaves, hsingle.leaves_eq, List.singleton_append, List.forall_mem_cons]
      exact ⟨hsingle, hothers⟩

lemma flatMap_members_of_single (h : ∀ setting ∈ settings, setting.Single) :
    settings.flatMap members = settings := by
  rw [List.flatMap_congr fun setting hsetting => (h setting hsetting).members_eq,
    List.flatMap_singleton']

/-- **What was combined is laid open again.**  The one setting that may be left has to be one by
itself, since it is not put into a group. -/
lemma members_combine (h : ∀ setting ∈ settings.flatMap members, setting.Single) :
    (combine settings).members = settings.flatMap members := by
  rw [combine]
  split
  · next setting hsettings =>
      rw [hsettings]
      exact (h setting (by simp [hsettings])).members_eq
  · rfl

/-- **Of a tree whose groups were combined, the leaves are left.** -/
lemma flatMap_members_combinedAll (settings : List Setting) :
    (combinedAll settings).flatMap members = allLeaves settings := by
  induction settings using trees_induction with
  | nil => rfl
  | group inner others hinner hothers =>
      have hsingle : ∀ setting ∈ (combinedAll inner).flatMap members, setting.Single := by
        rw [hinner]
        exact single_of_mem_allLeaves inner
      rw [combinedAll, combined, allLeaves, leaves, List.flatMap_cons, members_combine hsingle,
        hinner, hothers]
  | nothing others hothers =>
      simpa [combinedAll, combined, allLeaves, leaves, members] using hothers
  | single setting others hsingle hothers =>
      rw [combinedAll, hsingle.combined_eq, allLeaves, hsingle.leaves_eq, List.flatMap_cons,
        hsingle.members_eq, hothers]

lemma combine_combinedAll (settings : List Setting) :
    combine (combinedAll settings) = combine (allLeaves settings) := by
  rw [combine, combine, flatMap_members_combinedAll,
    flatMap_members_of_single (single_of_mem_allLeaves settings)]

/-- **To apply a tree is to apply its leaves.** -/
lemma applyAll_allLeaves (settings : List Setting) (m : Machine) :
    applyAll m (allLeaves settings) = applyAll m settings := by
  induction settings using trees_induction generalizing m with
  | nil => rfl
  | group inner others hinner hothers =>
      rw [allLeaves, leaves, applyAll_append, hinner, applyAll_cons, apply]
      simp only [hothers]
  | nothing others hothers =>
      have hnothing : apply m nothing = .ok m := by simp only [apply, applyOne]
      rw [allLeaves, leaves, List.nil_append, hothers, applyAll_cons, hnothing]
      rfl
  | single setting others hsingle hothers =>
      rw [allLeaves, hsingle.leaves_eq, List.singleton_append, applyAll_cons, applyAll_cons]
      simp only [hothers]

end Setting

/-! ## What a machine is set up with -/

/-- The outlets that output goes to, in order. -/
def Console.inUse (c : Console) : List Outlet := c.route.outlets.filterMap (c.outlets[·]?)

/-- What settings lay down. -/
structure Setup where
  /-- The streams to be read, in order. -/
  queue : List Stream := []
  /-- What is to be closed at the end, oldest first. -/
  closers : List Closer := []
  /-- The outlets that output goes to, in order. -/
  outlets : List Outlet := [.discard]
  /-- The prompts. -/
  prompts : Prompts := {}
  /-- The limit of the return stack. -/
  limit : ℤ := 4096
  /-- How the message of a diagnostic is dressed up. -/
  style : Text → Text := id
  /-- The log that messages go to. -/
  log : Option ℕ := none

/-- What is laid down after one more setting.  Inputs pile up, an output takes the place of all
outlets before it, a tee is added to them, and of the others the last one counts. -/
def Setup.after (s : Setup) : Setting → Except Failure Setup
  | .input stream closer =>
      .ok { s with queue := s.queue ++ [stream], closers := s.closers ++ closer.toList }
  | .written name text => text.map fun text => { s with queue := s.queue ++ [.ofText name text] }
  | .prelude => .ok { s with queue := s.queue ++ [.ofText preludeName preludeText] }
  | .output outlet => .ok { s with outlets := [outlet] }
  | .tee outlet => .ok { s with outlets := s.outlets ++ [outlet] }
  | .prompts prompts => .ok { s with prompts }
  | .limit limit => .ok { s with limit }
  | .style style => .ok { s with style }
  | .trace log => .ok { s with log }
  | .group _ | .nothing => .ok s

namespace Machine

variable {m : Machine}

/-- What a machine is set up with. -/
def setup (m : Machine) : Setup where
  queue := m.input.queue
  closers := m.closers
  outlets := m.console.inUse
  prompts := m.console.prompts
  limit := m.engine.limit
  style := m.console.style
  log := m.trace.log

lemma inUse_redirect (m : Machine) (outlet : Outlet) :
    (m.redirect outlet).console.inUse = [outlet] := by
  simp [Console.inUse, redirect, Route.outlets]

/-- The outlets that were in use stay where they are, and the new one comes last. -/
lemma inUse_branch (h : m.Routed) (outlet : Outlet) :
    (m.branch outlet).console.inUse = m.console.inUse ++ [outlet] := by
  have hkept :
      ∀ i ∈ m.console.route.outlets, (m.console.outlets ++ [outlet])[i]? = m.console.outlets[i]? :=
    fun i hi => List.getElem?_append_left (h.2 i hi)
  rw [Console.inUse, outlets_branch, List.filterMap_append]
  simp [branch, Console.inUse, List.filterMap_congr hkept]

/-- **A setting does to the machine what it does to the setup.** -/
lemma map_setup_applyOne (h : m.Routed) (setting : Setting) :
    (Setting.applyOne m setting).map setup = m.setup.after setting := by
  cases setting with
  | written name text => cases text <;> rfl
  | output outlet =>
      have hsetup : (m.redirect outlet).setup = { m.setup with outlets := [outlet] } := by
        rw [setup, inUse_redirect]
        rfl
      exact congrArg Except.ok hsetup
  | tee outlet =>
      have hsetup :
          (m.branch outlet).setup = { m.setup with outlets := m.setup.outlets ++ [outlet] } := by
        rw [setup, inUse_branch h]
        rfl
      exact congrArg Except.ok hsetup
  | _ => rfl

/-- **Settings do to the machine what they do to the setup,** one after the other, up to the first
that fails. -/
lemma map_setup_applyAll (h : m.Routed) {settings : List Setting}
    (hsingle : ∀ setting ∈ settings, setting.Single) :
    (Setting.applyAll m settings).map setup = settings.foldlM Setup.after m.setup := by
  induction settings generalizing m with
  | nil => rfl
  | cons setting settings ih =>
      rw [List.forall_mem_cons] at hsingle
      have hstep := map_setup_applyOne h setting
      rw [Setting.applyAll_cons, hsingle.1.apply_eq, List.foldlM_cons, ← hstep]
      cases hone : Setting.applyOne m setting with
      | error failure => rfl
      | ok m1 => exact ih (routed_applyOne m setting m1 h hone) hsingle.2

/-- **Groups of settings are transparent.**  Take trees of settings, nested to any depth and with
nothing in the place of some.  Whether or not their groups have been combined, the machine that they
make is the machine that their leaves make, from left to right, or it fails as theirs does.  The
leaves are settings by themselves.  What the machine is set up with is what they lay down one after
the other, and it fails with the first of them that does. -/
theorem groups_transparent (settings : List Setting) :
    create (Setting.combinedAll settings) = create (Setting.allLeaves settings) ∧
    create settings = create (Setting.allLeaves settings) ∧
    (∀ leaf ∈ Setting.allLeaves settings, leaf.Single) ∧
    (create (Setting.allLeaves settings)).map setup
      = (Setting.allLeaves settings).foldlM Setup.after {} := by
  have hleaves := Setting.single_of_mem_allLeaves settings
  refine ⟨?_, ?_, hleaves, ?_⟩
  · rw [create, create, Setting.combine_combinedAll]
  · rw [create_eq_applyAll, create_eq_applyAll, Setting.applyAll_allLeaves]
  · have hrouted : initial.Routed := ⟨by decide, by decide⟩
    refine Eq.trans ?_ (map_setup_applyAll hrouted hleaves)
    rw [create_eq_applyAll]
    cases Setting.applyAll initial (Setting.allLeaves settings) <;> rfl

/-- The output of the second group takes the place of the outlets of the first one, and the limit
stands two groups deep. -/
theorem groups_transparent_of_nested :
    let settings : List Setting :=
      [.nothing, .group [.output (.memory []), .tee .discard, .group [.group [], .nothing]],
        .group [.written (utf8 "one") (.ok (utf8 "1 .\n")), .group [.prelude, .output .discard],
        .tee (.memory [])], .group [.group [.limit 7]], .trace (some 1), .prompts .off]
    .limit 7 ∈ Setting.allLeaves settings ∧ (Setting.limit 7).Single ∧
      create (Setting.combinedAll settings) = create (Setting.allLeaves settings) ∧
      (create (Setting.combinedAll settings)).map setup = .ok {
        queue := [.ofText (utf8 "one") (utf8 "1 .\n"), .ofText preludeName preludeText]
        outlets := [.discard, .memory []]
        prompts := .off
        limit := 7
        log := some 1 } := by
  intro settings
  obtain ⟨hcombined, -, hsingle, hsetup⟩ := groups_transparent settings
  have hlimit : .limit 7 ∈ Setting.allLeaves settings := by
    simp [settings, Setting.allLeaves, Setting.leaves]
  refine ⟨hlimit, hsingle _ hlimit, hcombined, ?_⟩
  rw [hcombined, hsetup]
  rfl

end Machine

end ColonMachine
