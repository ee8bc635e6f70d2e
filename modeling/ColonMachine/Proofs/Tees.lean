import ColonMachine.Proofs.Honest
import Mathlib.Logic.Function.Iterate

/-!
# Tees of tees

Routes are combined to tees, and tees to further tees, with nothing in the place of some.  What
comes out is the route to the outlets at the leaves, from left to right: none without a leaf, the
outlet itself with one, and a tee of the leaves with more (`route_eq_ofOutlets`).

The outlets of a tee may do anything.  Each has a state, it may fail now and not later, and it may
stand in a tee more than once.  So what a tee does is said by turns.

* `Outlets.inTurn` does something to outlets one after the other, in the order of their positions.
* `Outlets.AllInTurn` says something of each outlet as it is when its turn comes.
* `Outlets.Handed` says to whom a piece is given, and with what result; a tee does just that
  (`handed_writeEach`).
* A flush goes to all of them (`flushEach_snd`) and gives the first failure
  (`flushEach_fst_eq_some_iff`).

The main result is `tees_compose`.
-/

namespace ColonMachine

/-! ## One outlet -/

/-- Whatever the device does, no more bytes are counted than were given.  The induction is that of
the definition. -/
lemma Buffer.count_write_le (manner : Manner) (piece : Text) (b : Buffer) :
    (b.write manner piece).1.count ≤ piece.length := by
  fun_induction Buffer.write manner piece b with
  | case1 => simp
  | case2 => simp
  | case3 piece b hfailed hfits hdirect written d hwrite b' hzero =>
      simp [hzero]
  | case4 piece b hfailed hfits hdirect written d hwrite b' hsome more b'' hrest ih =>
      have hcount := Device.count_write_le b.device piece
      simp only [hwrite, hrest, List.length_drop] at hcount ih ⊢
      omega
  | case5 piece b hfailed hfits hdirect room failure b' hflush =>
      simp only
      omega
  | case6 piece b hfailed hfits hdirect room b' hflush more b'' hrest ih =>
      simp only [hrest, List.length_drop] at ih ⊢
      omega

namespace Outlet

variable {piece : Text} {o : Outlet}

/-- The outlet after a piece was given to it. -/
def offered (piece : Text) (o : Outlet) : Outlet := (o.write .bytes piece).2

/-- The outlet after a flush. -/
def drained (o : Outlet) : Outlet := o.flush.2

/-- The outlet takes all of a piece and does not fail. -/
def TakesAll (piece : Text) (o : Outlet) : Prop := (o.write .bytes piece).1 = ⟨piece.length, none⟩

lemma count_write_le (manner : Manner) (piece : Text) (o : Outlet) :
    (o.write manner piece).1.count ≤ piece.length := by
  cases o with
  | memory pieces => simp [write]
  | discard => simp [write]
  | direct device => exact Device.count_write_le device piece
  | buffered buffer => exact Buffer.count_write_le manner piece buffer

/-- Failing to take all means to fail, or to take less. -/
lemma not_takesAll_iff : ¬ o.TakesAll piece ↔
    (o.write .bytes piece).1.failure ≠ none ∨ (o.write .bytes piece).1.count < piece.length := by
  have hcount := count_write_le .bytes piece o
  rw [TakesAll]
  generalize (o.write .bytes piece).1 = w at hcount ⊢
  rcases w with ⟨count, failure⟩
  simp only [Written.mk.injEq, not_and_or] at hcount ⊢
  constructor
  · rintro (h | h)
    · right; omega
    · exact Or.inl h
  · rintro (h | h)
    · exact Or.inr h
    · left; omega

end Outlet

/-! ## Outlets in turn -/

namespace Outlets

variable {f : Outlet → Outlet} {p : Outlet → Prop} {piece : Text} {i : ℕ} {is given : List ℕ}
    {all : Outlets}

/-- The outlets after `f` was done to those at the positions `is`, one after the other. -/
def inTurn (f : Outlet → Outlet) (is : List ℕ) (all : Outlets) : Outlets :=
  is.foldl (fun all i => all.modify i f) all

/-- While `f` is done to the outlets at the positions `is`, one after the other, each of them
satisfies `p` when its turn comes. -/
def AllInTurn (f : Outlet → Outlet) (p : Outlet → Prop) (is : List ℕ) (all : Outlets) : Prop :=
  ∀ before i later, is = before ++ i :: later → ∀ o, (all.inTurn f before)[i]? = some o → p o

@[simp] lemma inTurn_nil (f : Outlet → Outlet) (all : Outlets) : all.inTurn f [] = all := rfl

@[simp] lemma inTurn_cons (f : Outlet → Outlet) (i : ℕ) (is : List ℕ) (all : Outlets) :
    all.inTurn f (i :: is) = Outlets.inTurn f is (all.modify i f) := rfl

/-- Each outlet has its turn as often as its position is given. -/
lemma getElem?_inTurn (f : Outlet → Outlet) (is : List ℕ) (all : Outlets) (j : ℕ) :
    (all.inTurn f is)[j]? = all[j]?.map f^[is.count j] := by
  induction is generalizing all with
  | nil => simp
  | cons i is ih =>
      rw [inTurn_cons, ih, List.getElem?_modify, List.count_cons]
      by_cases h : i = j
      · simp [h, Function.comp_def]
      · simp [h]

lemma allInTurn_nil (f : Outlet → Outlet) (p : Outlet → Prop) (all : Outlets) :
    AllInTurn f p [] all := by
  intro before i later h
  simp at h

lemma allInTurn_cons : AllInTurn f p (i :: is) all ↔
    (∀ o, all[i]? = some o → p o) ∧ AllInTurn f p is (all.modify i f) := by
  constructor
  · intro h
    refine ⟨h [] i is rfl, ?_⟩
    rintro before j later rfl
    exact h (i :: before) j later rfl
  · rintro ⟨hfirst, hrest⟩ before j later h
    cases before with
    | nil =>
        simp only [List.nil_append, List.cons.injEq] at h
        rw [inTurn_nil, ← h.1]
        exact hfirst
    | cons i' before =>
        simp only [List.cons_append, List.cons.injEq] at h
        rw [inTurn_cons, ← h.1]
        exact hrest before j later h.2

lemma set_eq_modify {o : Outlet} (ho : all[i]? = some o) : all.set i (f o) = all.modify i f := by
  refine List.ext_getElem? fun j => ?_
  rw [List.getElem?_modify, List.getElem?_set]
  by_cases h : i = j
  · obtain ⟨hi, ho⟩ := List.getElem?_eq_some_iff.mp ho
    subst h
    simp [hi, ho]
  · simp [h]

lemma writeAt_snd (piece : Text) (i : ℕ) (all : Outlets) :
    (all.writeAt .bytes piece i).2 = all.modify i (Outlet.offered piece) := by
  cases ho : all[i]? with
  | none => simp [writeAt, ho, List.modify_eq_self (List.getElem?_eq_none_iff.mp ho)]
  | some o => simp [writeAt, ho, ← set_eq_modify ho, Outlet.offered]

lemma flushAt_snd (i : ℕ) (all : Outlets) : (all.flushAt i).2 = all.modify i Outlet.drained := by
  cases ho : all[i]? with
  | none => simp [flushAt, ho, List.modify_eq_self (List.getElem?_eq_none_iff.mp ho)]
  | some o => simp [flushAt, ho, ← set_eq_modify ho, Outlet.drained]

/-! ## Writing -/

/-- A piece has been given to the outlets at the positions `given`, and to no others: to all of
`is`, if each of them took all of it, or to those up to the first that did not, which the answer is
about. -/
inductive Handed (piece : Text) (is : List ℕ) (all : Outlets) :
    List ℕ → Written × Outlets → Prop where
  | whole (h : AllInTurn (Outlet.offered piece) (Outlet.TakesAll piece) is all) :
      Handed piece is all is (⟨piece.length, none⟩, all.inTurn (Outlet.offered piece) is)
  | upTo {before later : List ℕ} {i : ℕ} {o : Outlet} (his : is = before ++ i :: later)
      (h : AllInTurn (Outlet.offered piece) (Outlet.TakesAll piece) before all)
      (ho : (all.inTurn (Outlet.offered piece) before)[i]? = some o)
      (hfails : (o.write .bytes piece).1.failure ≠ none ∨
      (o.write .bytes piece).1.count < piece.length) :
      Handed piece is all (before ++ [i])
        (⟨(o.write .bytes piece).1.count, (o.write .bytes piece).1.failure.getD .shortWrite⟩,
          all.inTurn (Outlet.offered piece) (before ++ [i]))

/-- One more outlet that takes all of the piece may stand in front. -/
lemma Handed.cons {result : Written × Outlets} (hfirst : ∀ o, all[i]? = some o → o.TakesAll piece)
    (h : Handed piece is (all.modify i (Outlet.offered piece)) given result) :
    Handed piece (i :: is) all (i :: given) result := by
  cases h with
  | whole h => exact .whole (allInTurn_cons.mpr ⟨hfirst, h⟩)
  | @upTo before later j o his h ho hfails =>
      subst his
      exact Handed.upTo (List.cons_append ..).symm (allInTurn_cons.mpr ⟨hfirst, h⟩) ho hfails

/-- Every outlet has been offered the piece as often as it is among those that it was given to. -/
lemma Handed.getElem?_snd {result : Written × Outlets} (h : Handed piece is all given result)
    (j : ℕ) :
    result.2[j]? = all[j]?.map (Outlet.offered piece)^[given.count j] := by
  cases h with
  | whole => exact getElem?_inTurn _ _ all j
  | upTo => exact getElem?_inTurn _ _ all j

/-- **A tee gives a piece to its outlets in turn, up to the first that does not take all of it.** -/
lemma handed_writeEach (piece : Text) (is : List ℕ) (all : Outlets) :
    ∃ given, Handed piece is all given (all.writeEach piece is) := by
  induction is generalizing all with
  | nil => exact ⟨[], .whole (allInTurn_nil _ _ all)⟩
  | cons i is ih =>
      by_cases htakes : ∀ o, all[i]? = some o → o.TakesAll piece
      · obtain ⟨given, hgiven⟩ := ih (all.modify i (Outlet.offered piece))
        have hwrite :
            all.writeAt .bytes piece i
              = (⟨piece.length, none⟩, all.modify i (Outlet.offered piece)) := by
          refine Prod.ext ?_ (writeAt_snd piece i all)
          rw [writeAt]
          cases ho : all[i]? with
          | none => rfl
          | some o => exact htakes o ho
        refine ⟨i :: given, ?_⟩
        rw [writeEach, hwrite]
        simpa using hgiven.cons htakes
      · simp only [not_forall] at htakes
        obtain ⟨o, ho, hfails⟩ := htakes
        refine ⟨[] ++ [i], ?_⟩
        have hhanded := Handed.upTo (List.nil_append (i :: is)).symm (allInTurn_nil _ _ all) ho
          (Outlet.not_takesAll_iff.mp hfails)
        have hwrite : all.writeAt .bytes piece i
            = ((o.write .bytes piece).1, all.inTurn (Outlet.offered piece) ([] ++ [i])) :=
          Prod.ext (by simp [writeAt, ho]) (writeAt_snd piece i all)
        rw [Outlet.TakesAll] at hfails
        rw [writeEach, hwrite]
        generalize (o.write .bytes piece).1 = w at hfails hhanded ⊢
        rcases w with ⟨count, _ | failure⟩
        · have hcount : (count == piece.length) = false := by simpa using hfails
          simpa only [hcount, Bool.false_eq_true, if_false, Option.getD_none] using hhanded
        · exact hhanded

/-! ## Flushing -/

/-- **A flush of a tee goes to each of its outlets in turn, whatever the others do.** -/
lemma flushEach_snd (is : List ℕ) (all : Outlets) :
    (all.flushEach is).2 = all.inTurn Outlet.drained is := by
  induction is generalizing all with
  | nil => rfl
  | cons i is ih =>
      rw [inTurn_cons, ← flushAt_snd, ← ih]
      rfl

lemma flushEach_fst (i : ℕ) (is : List ℕ) (all : Outlets) : (all.flushEach (i :: is)).1
    = (all[i]?.bind (·.flush.1) <|> (Outlets.flushEach is (all.modify i Outlet.drained)).1) := by
  rw [← flushAt_snd]
  have hfirst : (all.flushAt i).1 = all[i]?.bind (·.flush.1) := by
    rw [flushAt]
    cases all[i]? <;> rfl
  rw [← hfirst]
  rfl

/-- **The failure of a flush is that of the first outlet that fails.** -/
lemma flushEach_fst_eq_some_iff (is : List ℕ) (all : Outlets) (failure : Failure) :
    (all.flushEach is).1 = some failure ↔ ∃ before i later o, is = before ++ i :: later ∧
      AllInTurn Outlet.drained (·.flush.1 = none) before all ∧
      (all.inTurn Outlet.drained before)[i]? = some o ∧ o.flush.1 = some failure := by
  induction is generalizing all with
  | nil => simp [flushEach]
  | cons i is ih =>
      rw [flushEach_fst]
      constructor
      · intro h
        cases hfirst : all[i]?.bind (·.flush.1) with
        | some failure' =>
            obtain ⟨o, ho, hflush⟩ := Option.bind_eq_some_iff.mp hfirst
            rw [hfirst] at h
            refine ⟨[], i, is, o, rfl, allInTurn_nil _ _ all, ho, ?_⟩
            simpa [hflush] using h
        | none =>
            rw [hfirst] at h
            obtain ⟨before, j, later, o, rfl, hbefore, ho, hflush⟩ := (ih _).mp (by simpa using h)
            refine ⟨i :: before, j, later, o, rfl, allInTurn_cons.mpr ⟨?_, hbefore⟩, ho, hflush⟩
            exact Option.bind_eq_none_iff.mp hfirst
      · rintro ⟨before, j, later, o, his, hbefore, ho, hflush⟩
        cases before with
        | nil =>
            simp only [List.nil_append, List.cons.injEq] at his
            simp only [inTurn_nil, ← his.1] at ho
            simp [ho, hflush]
        | cons i' before =>
            simp only [List.cons_append, List.cons.injEq] at his
            rw [← his.1] at hbefore ho
            obtain ⟨hquiet, hbefore⟩ := allInTurn_cons.mp hbefore
            have hfirst : all[i]?.bind (·.flush.1) = none := Option.bind_eq_none_iff.mpr hquiet
            rw [hfirst]
            exact (ih _).mpr ⟨before, j, later, o, his.2, hbefore, ho, hflush⟩

end Outlets

/-! ## Trees of tees -/

namespace Route

/-- How routes are put together. -/
inductive Tree where
  /-- No route. -/
  | absent
  /-- The route to one outlet. -/
  | outlet (i : ℕ)
  /-- The routes of the members, combined. -/
  | tee (members : List Tree)

namespace Tree

mutual

/-- The route that a tree comes to. -/
def route : Tree → Option Route
  | absent => none
  | outlet i => some (.single i)
  | tee members => combine (routes members)

/-- The routes that several trees come to. -/
def routes : List Tree → List (Option Route)
  | [] => []
  | tree :: trees => route tree :: routes trees

end

mutual

/-- The outlets of a tree, from left to right. -/
def leaves : Tree → List ℕ
  | absent => []
  | outlet i => [i]
  | tee members => allLeaves members

/-- The outlets of several trees, from left to right. -/
def allLeaves : List Tree → List ℕ
  | [] => []
  | tree :: trees => leaves tree ++ allLeaves trees

end

lemma ofOutlets_of_many {is : List ℕ} (h : 2 ≤ is.length) : ofOutlets is = some (.tee is) := by
  rcases is with _ | ⟨i, _ | ⟨j, is⟩⟩
  · simp at h
  · simp at h
  · rfl

/-- Taking a route apart gives what it was made from. -/
lemma getD_outlets_ofOutlets (is : List ℕ) : ((ofOutlets is).map outlets).getD [] = is := by
  rcases is with _ | ⟨i, _ | ⟨j, is⟩⟩ <;> rfl

mutual

/-- **A tree of tees is a tee of its leaves.** -/
lemma route_eq_ofOutlets : ∀ tree : Tree, tree.route = ofOutlets tree.leaves
  | absent => by simp [route, leaves, ofOutlets]
  | outlet i => by simp [route, leaves, ofOutlets]
  | tee members => by rw [route, combine, flatMap_outlets_routes members, leaves]

lemma flatMap_outlets_routes : ∀ trees : List Tree,
    ((routes trees).flatMap fun route => (route.map outlets).getD []) = allLeaves trees
  | [] => by simp [routes, allLeaves]
  | tree :: trees => by
      rw [routes, allLeaves, List.flatMap_cons, route_eq_ofOutlets tree, getD_outlets_ofOutlets,
        flatMap_outlets_routes trees]

end

/-- **Tees compose.**  A tree of tees comes to nothing without leaves and to the outlet itself with
one.  With more, it comes to the tee of its leaves.  What is written there is given to the leaves in
order, up to the first that fails or takes less than all, and its answer is that of the tee; nothing
is given to later ones, so every outlet is offered the piece as often as it stands among those.  A
flush goes once to every leaf in order, and gives the first failure. -/
theorem tees_compose (tree : Tree) :
    (tree.leaves = [] → tree.route = none) ∧
    (∀ i, tree.leaves = [i] → tree.route = some (.single i)) ∧
    (2 ≤ tree.leaves.length → tree.route = some (.tee tree.leaves) ∧ ∀ all : Outlets,
      (∀ manner piece, ∃ given,
        Outlets.Handed piece tree.leaves all given (all.write manner piece (.tee tree.leaves)) ∧
        ∀ j : ℕ, (all.write manner piece (.tee tree.leaves)).2[j]?
          = all[j]?.map (Outlet.offered piece)^[given.count j]) ∧
      (all.flush (.tee tree.leaves)).2 = all.inTurn Outlet.drained tree.leaves ∧
      (∀ j : ℕ, (all.flush (.tee tree.leaves)).2[j]?
        = all[j]?.map Outlet.drained^[tree.leaves.count j]) ∧
      ∀ failure, (all.flush (.tee tree.leaves)).1 = some failure ↔
        ∃ before i later o, tree.leaves = before ++ i :: later ∧
          Outlets.AllInTurn Outlet.drained (·.flush.1 = none) before all ∧
          (all.inTurn Outlet.drained before)[i]? = some o ∧ o.flush.1 = some failure) := by
  rw [route_eq_ofOutlets]
  generalize tree.leaves = is
  refine ⟨?_, ?_, fun hmany => ⟨ofOutlets_of_many hmany,
    fun all => ⟨fun manner piece => ?_, ?_, fun j => ?_, ?_⟩⟩⟩
  · rintro rfl
    rfl
  · rintro i rfl
    rfl
  · obtain ⟨given, hhanded⟩ := Outlets.handed_writeEach piece is all
    exact ⟨given, hhanded, hhanded.getElem?_snd⟩
  · exact Outlets.flushEach_snd is all
  · rw [← Outlets.getElem?_inTurn, ← Outlets.flushEach_snd]
    rfl
  · exact Outlets.flushEach_fst_eq_some_iff is all

theorem tees_compose_of_short_write :
    let tree : Tree :=
      .tee [.outlet 0, .absent, .tee [.outlet 1, .tee []], .tee [.tee [.outlet 2], .outlet 0]]
    let all : Outlets := [.memory [], .direct (.limited (some 1) true none), .memory []]
    2 ≤ tree.leaves.length ∧ tree.route = some (.tee tree.leaves) ∧
      (all.write .chars (utf8 "ab") (.tee tree.leaves)).1 = ⟨1, some .shortWrite⟩ ∧
      ∃ given, Outlets.Handed (utf8 "ab") tree.leaves all given
        (all.write .chars (utf8 "ab") (.tee tree.leaves)) ∧
        ∀ j : ℕ, (all.write .chars (utf8 "ab") (.tee tree.leaves)).2[j]?
          = all[j]?.map (Outlet.offered (utf8 "ab"))^[given.count j] := by
  intro tree all
  have hmany : 2 ≤ tree.leaves.length := by simp [tree, leaves, allLeaves]
  obtain ⟨hroute, hdoes⟩ := (tees_compose tree).2.2 hmany
  exact ⟨hmany, hroute, by decide, (hdoes all).1 .chars (utf8 "ab")⟩

end Tree

end Route

end ColonMachine
