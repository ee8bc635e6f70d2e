import ColonMachine.Proofs.Spelling
import ColonMachine.Wrappers.Generate
import Mathlib.Data.List.Infix

/-!
# Wrappers forward their parameters

A wrapper takes the parameters of a builder method and passes them on to it.  Its parameter list is
copied as it stands, so what has to be right are the names that are passed on: they are read from
the list, and so is which of them stand for any number of values.

* `Group` are names that share a type, and `Group.list` is the list that they are written as.  Names
  are read back with the type of their group (`parse?_list`), by an induction that goes from right
  to left, as types are shared.
* `Method.StandsOn` says what a line looks like that a builder method stands on.  The list ends
  where it can end first, which is its end if it does not contain what follows it (`cut?_append`).
  So the method on a line is found (`ofLine?_of_standsOn`), and nothing else is
  (`standsOn_of_ofLine?`).
* `WrappersOf` relates the lines of a file to the wrappers of the builder methods that stand on
  them.

The main result is `wrappers_forward_params`.
-/

namespace ColonMachine

namespace Text

/-! ## Splitting -/

section Splitting

variable {b : UInt8} {t : Text}

lemma splitAt_ne_nil (b : UInt8) (t : Text) : splitAt b t ≠ [] := by
  cases t with
  | nil => simp [splitAt]
  | cons c rest =>
      rw [splitAt]
      split_ifs
      · simp
      · split <;> simp

lemma splitAt_append (b : UInt8) (t rest : Text) :
    splitAt b (t ++ b :: rest) = splitAt b t ++ splitAt b rest := by
  induction t with
  | nil => simp [splitAt]
  | cons c t ih =>
      obtain ⟨piece, pieces, hpieces⟩ := List.exists_cons_of_ne_nil (splitAt_ne_nil b t)
      by_cases hc : c = b <;> simp [splitAt, hc, ih, hpieces]

lemma splitAt_of_notMem (h : b ∉ t) : splitAt b t = [t] := by
  induction t with
  | nil => rfl
  | cons c t ih =>
      simp only [List.mem_cons, not_or] at h
      simp [splitAt, Ne.symm h.1, ih h.2]

end Splitting

/-! ## Cutting -/

section Cutting

variable {t mark front rest : Text}

lemma eq_of_cut? {parts : Text × Text} (h : cut? t mark = some parts) :
    t = parts.1 ++ mark ++ parts.2 := by
  induction t generalizing parts with
  | nil =>
      simp only [cut?, Option.map_eq_some_iff, List.isPrefixOf?_eq_some_iff_append_eq] at h
      obtain ⟨after, hafter, rfl⟩ := h
      simpa using hafter.symm
  | cons b t ih =>
      rw [cut?] at h
      split at h
      · next after hafter =>
          rw [List.isPrefixOf?_eq_some_iff_append_eq] at hafter
          rw [← Option.some.inj h, ← hafter]
          rfl
      · obtain ⟨parts', hparts', rfl⟩ := Option.map_eq_some_iff.mp h
        rw [ih hparts']
        rfl

/-- A mark whose first byte stands nowhere else in it does not overlap itself, so that it is found
where it was put, unless it was there before. -/
lemma cut?_append {b : UInt8} {t : Text} (hb : b ∉ t) (hfront : ¬ (b :: t) <:+: front) :
    cut? (front ++ (b :: t) ++ rest) (b :: t) = some (front, rest) := by
  induction front with
  | nil =>
      have hprefix : (b :: t).isPrefixOf? (b :: (t ++ rest)) = some rest := by
        simp
      simp only [List.nil_append, List.cons_append, cut?, hprefix]
  | cons c front ih =>
      have hrest := ih fun h => hfront (h.trans (List.suffix_cons c front).isInfix)
      have hnone : (b :: t).isPrefixOf? (c :: (front ++ (b :: t) ++ rest)) = none := by
        rw [Option.eq_none_iff_forall_ne_some]
        intro after hafter
        rw [List.isPrefixOf?_eq_some_iff_append_eq] at hafter
        have hoverlap : (b :: t) ++ after = (c :: front) ++ ((b :: t) ++ rest) := by
          simpa using hafter
        rcases List.append_eq_append_iff.mp hoverlap with ⟨x, hx, -⟩ | ⟨x, hx, hx'⟩
        · exact hfront ⟨[], x, by simpa using hx.symm⟩
        · cases x with
          | nil => exact hfront ⟨[], [], by simpa using hx⟩
          | cons b' x =>
              simp only [List.cons_append, List.cons.injEq] at hx hx'
              exact hb (by simp [hx.2, hx'.1])
      rw [List.cons_append, List.cons_append, cut?, hnone, hrest]
      rfl

end Cutting

end Text

/-! ## Parameter lists -/

namespace Param

/-- A text that is read as one name, or as one word of a type. -/
def IsPlain (t : Text) : Prop := t ≠ [] ∧ comma ∉ t ∧ ∀ r ∈ t.runes, Rune.isBlank r.code = false

instance (t : Text) : Decidable (IsPlain t) := inferInstanceAs (Decidable (_ ∧ _ ∧ _))

/-- Parameters that share a type. -/
structure Group where
  /-- The names of the parameters. -/
  names : List Text
  /-- The words of the type. -/
  words : List Text
  names_ne_nil : names ≠ []
  words_ne_nil : words ≠ []
  plain_names : ∀ name ∈ names, IsPlain name
  plain_words : ∀ word ∈ words, IsPlain word

namespace Group

/-- The type of a group. -/
def type (g : Group) : Text := Text.join [Text.space] g.words

/-- The group as it is written: the names with commas between them, and then the type. -/
def text (g : Group) : Text := Text.join (utf8 ", ") g.names ++ Text.space :: g.type

/-- The parameters of a group: each name with the type. -/
def params (g : Group) : List Param := g.names.map fun name => { name, type := g.type }

/-- The list that groups are written as. -/
def list (gs : List Group) : Text := Text.join (utf8 ", ") (gs.map text)

end Group

section Reading

variable {t : Text} {names words later : List Text} {params : List Param}

lemma IsPlain.blankFields_eq (h : IsPlain t) : t.blankFields = [t] := Text.fields_unbroken h.1 h.2.2

lemma blankFields_append_space (t rest : Text) :
    (t ++ Text.space :: rest).blankFields = t.blankFields ++ rest.blankFields :=
  Text.fields_append t (by decide) (by decide) rest

lemma blankFields_join (h : ∀ word ∈ words, IsPlain word) :
    (Text.join [Text.space] words).blankFields = words := by
  induction words with
  | nil => rfl
  | cons word words ih =>
      have hword := (h word List.mem_cons_self).blankFields_eq
      have hwords := ih fun w hw => h w (List.mem_cons_of_mem _ hw)
      cases words with
      | nil => exact hword
      | cons w words =>
          rw [Text.join, List.append_assoc, List.singleton_append, blankFields_append_space,
            hword, hwords]
          · rfl
          · simp

lemma comma_notMem_join (h : ∀ word ∈ words, IsPlain word) :
    comma ∉ Text.join [Text.space] words := by
  have hspace : comma ≠ Text.space := by decide
  induction words with
  | nil => simp [Text.join]
  | cons word words ih =>
      have hword := (h word List.mem_cons_self).2.1
      have hwords := ih fun w hw => h w (List.mem_cons_of_mem _ hw)
      cases words with
      | nil => exact hword
      | cons w words => simp [Text.join, hword, hwords, hspace]

/-- A space before a list changes nothing. -/
lemma ofParts?_space (t : Text) (later : List Text) :
    ofParts? (Text.splitAt comma (Text.space :: t) ++ later)
      = ofParts? (Text.splitAt comma t ++ later) := by
  have hblank (part : Text) : split? (Text.space :: part) = split? part := by
    have hfields : Text.blankFields (Text.space :: part) = part.blankFields :=
      blankFields_append_space [] part
    simp only [split?, hfields]
  have hspace : (Text.space == comma) = false := by decide
  obtain ⟨part, parts, hparts⟩ := List.exists_cons_of_ne_nil (Text.splitAt_ne_nil comma t)
  simp [Text.splitAt, hspace, hparts, ofParts?, hblank]

/-- A group is read with its own type, whatever follows it.  The induction is over the names; all
but the last get the type from their neighbour. -/
lemma ofParts?_group (hnames : names ≠ []) (hwords : words ≠ [])
    (hplain : ∀ name ∈ names, IsPlain name) (htype : ∀ word ∈ words, IsPlain word)
    (hlater : ofParts? later = some params) :
    ofParts?
      (Text.splitAt comma
        (Text.join (utf8 ", ") names ++ Text.space :: Text.join [Text.space] words) ++ later)
      = some (names.map (fun name => { name, type := Text.join [Text.space] words }) ++
        params) := by
  induction names with
  | nil => exact absurd rfl hnames
  | cons name names ih =>
      have hname := hplain name List.mem_cons_self
      cases names with
      | nil =>
          have hspace : comma ≠ Text.space := by decide
          have hpart : comma ∉ name ++ Text.space :: Text.join [Text.space] words := by
            simp [hname.2.1, comma_notMem_join htype, hspace]
          have hfields :
              (name ++ Text.space :: Text.join [Text.space] words).blankFields = name :: words := by
            rw [blankFields_append_space, hname.blankFields_eq, blankFields_join htype]
            rfl
          rw [Text.join, Text.splitAt_of_notMem hpart]
          simp [ofParts?, hlater, split?, hfields, hwords]
      | cons next names =>
          have hrest := ih (List.cons_ne_nil _ _) fun n hn => hplain n (List.mem_cons_of_mem _ hn)
          have hsplit :
              Text.join (utf8 ", ") (name :: next :: names) ++
                Text.space :: Text.join [Text.space] words
              = name ++ comma :: (Text.space ::
                  (Text.join (utf8 ", ") (next :: names) ++
                    Text.space :: Text.join [Text.space] words)) := by
            have hcomma : utf8 ", " = [comma, Text.space] := by decide
            simp [Text.join, hcomma]
          rw [hsplit, Text.splitAt_append, Text.splitAt_of_notMem hname.2.1, List.append_assoc,
            List.singleton_append, ofParts?, ofParts?_space, hrest]
          simp [split?, hname.blankFields_eq]

/-- **Names are read with the type of their group.**  The induction is over the groups, from the
last one on. -/
lemma parse?_list {gs : List Group} (h : gs ≠ []) :
    parse? (Group.list gs) = some (gs.flatMap Group.params) := by
  induction gs with
  | nil => exact absurd rfl h
  | cons g gs ih =>
      have hgroup {later : List Text} {params : List Param}
          (hlater : ofParts? later = some params) :
          ofParts? (Text.splitAt comma g.text ++ later) = some (g.params ++ params) :=
        ofParts?_group g.names_ne_nil g.words_ne_nil g.plain_names g.plain_words hlater
      cases gs with
      | nil =>
          simpa [parse?, Group.list, Text.join] using hgroup (show ofParts? [] = some [] from rfl)
      | cons g' gs =>
          have hsplit :
              Group.list (g :: g' :: gs)
                = g.text ++ comma :: (Text.space :: Group.list (g' :: gs)) := by
            have hcomma : utf8 ", " = [comma, Text.space] := by decide
            simp [Group.list, Text.join, hcomma]
          have hrest : ofParts? (Text.splitAt comma (Text.space :: Group.list (g' :: gs)))
              = some ((g' :: gs).flatMap Group.params) := by
            have hspace := ofParts?_space (Group.list (g' :: gs)) []
            rw [List.append_nil, List.append_nil] at hspace
            exact hspace.trans (ih (List.cons_ne_nil _ _))
          rw [parse?, hsplit, Text.splitAt_append, hgroup hrest]
          rfl

end Reading

end Param

namespace Wrappers

/-! ## Builder methods -/

namespace Method

/-- What a line looks like that a builder method stands on: the name begins with `expect` or `with`,
and goes on with letters, digits and underscores. -/
structure StandsOn (m : Method) (line : Text) : Prop where
  base : m.base = utf8 "expect" ∨ m.base = utf8 "with"
  what_ne_nil : m.what ≠ []
  what : ∀ b ∈ m.what, isNameByte b = true
  list_ne_nil : m.list ≠ []
  line : ∃ rest, line = methodLead ++ m.base ++ m.what ++ utf8 "(" ++ m.list ++ methodTail ++ rest

variable {m : Method} {base what list line rest after : Text}

lemma splitList?_append (hne : list ≠ []) (hlist : ¬ methodTail <:+: list) (rest : Text) :
    splitList? (list ++ methodTail ++ rest) = some list := by
  have htail : methodTail = 41 :: utf8 " vmTestCase \x7b" := by decide
  obtain ⟨b, list, rfl⟩ := List.exists_cons_of_ne_nil hne
  have hcut : Text.cut? (list ++ methodTail ++ rest) methodTail = some (list, rest) := by
    rw [htail] at hlist ⊢
    exact Text.cut?_append (by decide) fun h => hlist (h.trans (List.suffix_cons b list).isInfix)
  simp only [List.cons_append, splitList?, hcut]
  rfl

lemma ofRest?_append (base : Text) (hne : what ≠ []) (hwhat : ∀ b ∈ what, isNameByte b = true)
    (after : Text) :
    ofRest? base (what ++ 40 :: after) = (splitList? after).map fun list =>
      { base, what, list } := by
  have hparen : isNameByte 40 = false := by decide
  have htake : (what ++ 40 :: after).takeWhile isNameByte = what := by
    rw [List.takeWhile_append_of_pos hwhat, List.takeWhile_cons_of_neg (by simp [hparen]),
      List.append_nil]
  simp [ofRest?, htake, hne]

/-- **The method on a line is found.**  The list is not cut short, as what follows it is not in
it. -/
lemma ofLine?_of_standsOn (h : m.StandsOn line) (hlist : ¬ methodTail <:+: m.list) :
    ofLine? line = some m := by
  obtain ⟨base, what, list⟩ := m
  obtain ⟨hbase, hwhat_ne, hwhat, hlist_ne, rest, rfl⟩ := h
  have hrest (base : Text) :
      ofRest? base (what ++ 40 :: (list ++ methodTail ++ rest)) = some { base, what, list } := by
    rw [ofRest?_append base hwhat_ne hwhat, splitList?_append hlist_ne hlist]
    rfl
  have hparen : utf8 "(" = [40] := by decide
  have hlead (t : Text) : methodLead.isPrefixOf? (methodLead ++ t) = some t := by simp
  simp only [List.append_assoc, hparen, List.cons_append, List.nil_append] at hrest ⊢
  rw [ofLine?, hlead, Option.bind_eq_bind, Option.bind_some]
  rcases hbase with hbase | hbase <;> simp only at hbase <;> subst hbase
  · have hexpect (t : Text) : (utf8 "expect").isPrefixOf? (utf8 "expect" ++ t) = some t := by simp
    simp only [hexpect, hrest]
  · have hexpect (t : Text) : (utf8 "expect").isPrefixOf? (utf8 "with" ++ t) = none := rfl
    have hwith (t : Text) : (utf8 "with").isPrefixOf? (utf8 "with" ++ t) = some t := by simp
    simp only [hexpect, hwith, Option.bind_some, hrest]

lemma of_ofRest? (h : ofRest? base rest = some m) :
    m.base = base ∧ m.what ≠ [] ∧ (∀ b ∈ m.what, isNameByte b = true) ∧ m.list ≠ [] ∧
      ∃ after, rest = m.what ++ utf8 "(" ++ m.list ++ methodTail ++ after := by
  rw [ofRest?] at h
  split at h
  · next after hafter =>
      split_ifs at h with hempty
      obtain ⟨list, hlist, rfl⟩ := Option.map_eq_some_iff.mp h
      have hrest := List.prefix_iff_eq_append.mp (List.takeWhile_prefix isNameByte (l := rest))
      rw [hafter] at hrest
      cases after with
      | nil => simp [splitList?] at hlist
      | cons b after =>
          obtain ⟨parts, hparts, rfl⟩ := Option.map_eq_some_iff.mp hlist
          refine ⟨rfl, by simpa using hempty, List.all_eq_true.mp List.all_takeWhile,
            List.cons_ne_nil _ _, parts.2, ?_⟩
          have hparen : utf8 "(" = [40] := by decide
          rw [Text.eq_of_cut? hparts] at hrest
          simpa [hparen] using hrest.symm
  · simp at h

/-- **Nothing else is found.** -/
lemma standsOn_of_ofLine? (h : ofLine? line = some m) : m.StandsOn line := by
  rw [ofLine?, Option.bind_eq_bind, Option.bind_eq_some_iff] at h
  obtain ⟨rest, hrest, h⟩ := h
  rw [List.isPrefixOf?_eq_some_iff_append_eq] at hrest
  split at h
  · next after hafter =>
      rw [List.isPrefixOf?_eq_some_iff_append_eq] at hafter
      obtain ⟨hbase, hwhat_ne, hwhat, hlist, behind, rfl⟩ := of_ofRest? h
      refine ⟨Or.inl hbase, hwhat_ne, hwhat, hlist, behind, ?_⟩
      rw [← hrest, ← hafter, hbase]
      simp
  · obtain ⟨after, hafter, h⟩ := Option.bind_eq_some_iff.mp h
    rw [List.isPrefixOf?_eq_some_iff_append_eq] at hafter
    obtain ⟨hbase, hwhat_ne, hwhat, hlist, behind, rfl⟩ := of_ofRest? h
    refine ⟨Or.inr hbase, hwhat_ne, hwhat, hlist, behind, ?_⟩
    rw [← hrest, ← hafter, hbase]
    simp

end Method

/-! ## Lines -/

/-- What a line holds: behind the content come at most one carriage return, which is no part of it,
and at most a line break.  The line is not too long. -/
structure Holds (line content : Text) : Prop where
  unbroken : Text.newline ∉ content
  line : ∃ ret brk : Text, line = content ++ ret ++ brk ∧
    (ret = [Text.carriageReturn] ∨ ret = [] ∧ content.getLast? ≠ some Text.carriageReturn) ∧
    (brk = [Text.newline] ∨ brk = []) ∧ (content ++ ret).length < lineLimit

lemma scanLine?_of_holds {line content : Text} (h : Holds line content) :
    scanLine? line = some content := by
  obtain ⟨hunbroken, ret, brk, rfl, hret, hbrk, hlength⟩ := h
  have hbreak : Text.newline ∉ content ++ ret := by
    rcases hret with rfl | ⟨rfl, -⟩
    · simpa [hunbroken] using (by decide : Text.newline ≠ Text.carriageReturn)
    · simpa using hunbroken
  have hcontent :
      (if (content ++ ret ++ brk).getLast? == some Text.newline
        then (content ++ ret ++ brk).dropLast
      else content ++ ret ++ brk) = content ++ ret := by
    rcases hbrk with rfl | rfl
    · simp
    · rw [List.append_nil, if_neg]
      intro hlast
      exact hbreak (List.mem_of_getLast? (by simpa using hlast))
  simp only [scanLine?, hcontent, if_neg (Nat.not_le.mpr hlength)]
  rcases hret with rfl | ⟨rfl, hlast⟩
  · simp
  · simp [hlast]

end Wrappers

/-! ## Writing -/

/-- The device takes as many bytes more without a failure, in whatever chunks they come. -/
def Device.HasRoom (n : ℕ) (d : Device) : Prop :=
  ∀ (chunks : List Text) (bytes : Text), chunks.flatten.length + bytes.length ≤ n →
    bytes.length ≤ (d.onWrite ((chunks.map .wrote).reverse ++ d.events) bytes).count ∧
      (d.onWrite ((chunks.map .wrote).reverse ++ d.events) bytes).failure = none

/-- The context does not end for as many questions. -/
def Context.Lasts : ℕ → Context → Prop
  | 0, _ => True
  | n + 1, context => context.ask.1 = none ∧ Lasts n context.ask.2

namespace Wrappers

/-- What there is room for is written, and then there is room for the rest. -/
lemma put_of_hasRoom {d : Device} {t : Text} {n : ℕ} (h : d.HasRoom (t.length + n)) :
    ∃ d', put t d = (none, d') ∧ d'.received = d.received ++ t ∧ d'.HasRoom n := by
  by_cases hempty : t = []
  · subst hempty
    exact ⟨d, rfl, by simp, by simpa using h⟩
  · obtain ⟨hcount, hfailure⟩ := h [] t (by simp)
    simp only [List.map_nil, List.reverse_nil, List.nil_append] at hcount hfailure
    refine ⟨{ d with events := .wrote t :: d.events }, ?_, ?_, ?_⟩
    · simp [put, hempty, Device.write, hcount, hfailure]
    · simp [Device.received, Device.Event.bytes]
    · intro chunks bytes hlength
      have hmore : (t :: chunks).flatten.length + bytes.length ≤ t.length + n := by
        rw [List.flatten_cons, List.length_append]
        omega
      simpa using h (t :: chunks) bytes hmore

/-! ## Whole files -/

/-- The wrapper that takes a parameter list and passes on arguments. -/
def forwarding (base what list : Text) (arguments : List Text) : Text :=
  utf8 "func " ++ base ++ utf8 "VM" ++ what ++ utf8 "(" ++ list ++
    utf8 ") func(vmTestCase) vmTestCase \x7b\n" ++
      utf8 "\treturn func(vmt vmTestCase) vmTestCase \x7b\n" ++
    utf8 "\t\treturn vmt." ++ base ++ what ++ utf8 "(" ++ Text.join (utf8 ", ") arguments ++
      utf8 ")\n" ++
    utf8 "\t\x7d\n\x7d\n\n"

open Param (Group)

/-- The arguments for the parameters of groups: each name once, in order, with dots behind it if its
type begins with dots. -/
def arguments (groups : List Group) : List Text :=
  groups.flatMap fun g => g.names.map fun name => if utf8 "..." <+: g.type then name ++ utf8 "..."
    else name

/-- The wrappers of the builder methods that stand on lines, in order.  All lists can be read. -/
inductive WrappersOf : (lines wrappers : List Text) → Prop where
  | nil : WrappersOf [] []
  | method {line content base what : Text} {groups : List Group} {lines wrappers : List Text}
      (hline : Holds line content)
      (hmethod : Method.StandsOn ⟨base, what, Group.list groups⟩ content) (hgroups : groups ≠ [])
      (hlist : ¬ methodTail <:+: Group.list groups) (h : WrappersOf lines wrappers) :
      WrappersOf (line :: lines)
        (forwarding base what (Group.list groups) (arguments groups) :: wrappers)
  | other {line content : Text} {lines wrappers : List Text} (hline : Holds line content)
      (hother : ∀ m : Method, ¬ m.StandsOn content) (h : WrappersOf lines wrappers) :
      WrappersOf (line :: lines) wrappers

lemma wrapper_eq (base what list : Text) (groups : List Group) :
    Method.wrapper ⟨base, what, list⟩ (groups.flatMap Group.params)
      = forwarding base what list (arguments groups) := by
  have harguments : (groups.flatMap Group.params).map Param.argument = arguments groups := by
    simp [List.map_flatMap, Group.params, arguments, Param.argument, Function.comp_def]
  simp only [Method.wrapper, forwarding, harguments]

/-- The induction is over the lines.  What is waiting is written with the first wrapper, or at the
end. -/
lemma generateFrom_of_wrappers {lines wrappers : List Text} (h : WrappersOf lines wrappers)
    (waiting : Text) (context : Context) (d : Device) (hcontext : context.Lasts wrappers.length)
    (hroom : d.HasRoom (waiting ++ wrappers.flatten).length) :
    ∃ d', generateFrom lines waiting context d = (none, d') ∧
      d'.received = d.received ++ waiting ++ wrappers.flatten := by
  induction h generalizing waiting context d with
  | nil =>
      obtain ⟨d', hput, hreceived, -⟩ := put_of_hasRoom (n := 0) (by simpa using hroom)
      exact ⟨d', hput, by simpa using hreceived⟩
  | @method line content base what groups lines wrappers hline hmethod hgroups hlist _ ih =>
      obtain ⟨d1, hput, hreceived, hroom1⟩ := put_of_hasRoom (d := d)
        (t := waiting ++ forwarding base what (Group.list groups) (arguments groups))
          (n := wrappers.flatten.length)
        (by simpa [Nat.add_assoc] using hroom)
      rcases hask : context.ask with ⟨failure?, next⟩
      simp only [List.length_cons, Context.Lasts, hask] at hcontext
      obtain ⟨rfl, hnext⟩ := hcontext
      obtain ⟨d', hrest, hreceived'⟩ := ih [] next d1 hnext hroom1
      refine ⟨d', ?_, by simp [hreceived', hreceived]⟩
      simp only [generateFrom, scanLine?_of_holds hline, Method.ofLine?_of_standsOn hmethod hlist,
        Param.parse?_list hgroups, wrapper_eq, hput, hask, hrest]
  | @other line content lines wrappers hline hother _ ih =>
      obtain ⟨d', hrest, hreceived⟩ := ih waiting context d hcontext hroom
      have hnone : Method.ofLine? content = none := by
        rw [Option.eq_none_iff_forall_ne_some]
        exact fun m hm => hother m (Method.standsOn_of_ofLine? hm)
      exact ⟨d', by simp only [generateFrom, scanLine?_of_holds hline, hnone, hrest], hreceived⟩

/-- **Wrappers forward every parameter.**

* A list that is written from groups is read as all names in order, each with the type of its group.
* Of a file whose builder methods have such lists, the wrappers are generated in order, one for each
  method: it takes the list as it stands, and passes on each name once, in order, with dots just
  where the type begins with dots.  For other lines there is nothing. -/
theorem wrappers_forward_params :
    (∀ groups : List Group, groups ≠ [] →
      Param.parse? (Group.list groups)
        = some (groups.flatMap fun g => g.names.map fun name => { name, type := g.type })) ∧
    ∀ (name text : Text) (args : List Text) (context : Context) (d : Device) (wrappers : List Text),
      WrappersOf text.lines wrappers → context.Lasts wrappers.length →
      d.HasRoom (header name args ++ wrappers.flatten).length →
      (generate name text args context d).1 = none ∧
        (generate name text args context d).2.received = d.received ++ header name args ++
          wrappers.flatten := by
  refine ⟨fun groups hgroups => Param.parse?_list hgroups, ?_⟩
  intro name text args context d wrappers hwrappers hcontext hroom
  obtain ⟨d', hgenerate, hreceived⟩ :=
    generateFrom_of_wrappers hwrappers (header name args) context d hcontext hroom
  rw [generate, hgenerate]
  exact ⟨rfl, hreceived⟩

/-- Two names that share a type, and one that stands for any number of values. -/
theorem wrappers_forward_params_of_variadic :
    let text :=
      utf8 "package main\n\nfunc (vmt vmTestCase) expectStack(a, b int, rest ...string) vmTestCase \x7b\r\n\x7d\n"
    let generated :=
      generate (utf8 "vm_test.go") text [] (.endingAt 2 .deadlineExceeded)
        (.limited none false none)
    Param.parse? (utf8 "a, b int, rest ...string")
      = some [⟨utf8 "a", utf8 "int"⟩, ⟨utf8 "b", utf8 "int"⟩,
        ⟨utf8 "rest", utf8 "...string"⟩] ∧
      generated.1 = none ∧
      generated.2.received = header (utf8 "vm_test.go") [] ++
        utf8 "func expectVMStack(a, b int, rest ...string) func(vmTestCase) vmTestCase \x7b\n" ++
        utf8 "\treturn func(vmt vmTestCase) vmTestCase \x7b\n\t\treturn vmt.expectStack(a, b, rest...)\n\t\x7d\n\x7d\n\n" := by
  intro text generated
  let groups : List Group :=
    [⟨[utf8 "a", utf8 "b"], [utf8 "int"], by decide, by decide, by decide, by decide⟩,
      ⟨[utf8 "rest"], [utf8 "...string"], by decide, by decide, by decide, by decide⟩]
  have hlist : Group.list groups = utf8 "a, b int, rest ...string" := by decide
  have hlines : text.lines = [utf8 "package main" ++ [Text.newline], [] ++ [Text.newline],
      methodLead ++ utf8 "expect" ++ utf8 "Stack" ++ utf8 "(" ++ Group.list groups ++
        methodTail ++ [] ++ [Text.carriageReturn] ++ [Text.newline], utf8 "\x7d" ++
          [Text.newline]] := by
    decide +kernel
  -- a line that does not begin like a builder method is none
  have hother {content : Text} {lines wrappers : List Text} (hcontent : Text.newline ∉ content)
      (hback : content.getLast? ≠ some Text.carriageReturn) (hlength : content.length < lineLimit)
      (hhead : content.head? ≠ some 102) (h : WrappersOf lines wrappers) :
      WrappersOf ((content ++ [Text.newline]) :: lines) wrappers := by
    refine .other ⟨hcontent, [], [Text.newline], by simp, Or.inr ⟨rfl, hback⟩,
      Or.inl rfl, by simpa using hlength⟩ ?_ h
    rintro m ⟨-, -, -, -, rest, rfl⟩
    exact hhead rfl
  have hwrappers : WrappersOf text.lines
      [forwarding (utf8 "expect") (utf8 "Stack") (Group.list groups) (arguments groups)] := by
    rw [hlines]
    refine hother (by decide) (by decide) (by decide) (by decide) ?_
    refine hother (by decide) (by decide) (by decide) (by decide) ?_
    refine .method ⟨by decide +kernel, _, _, rfl, Or.inl rfl, Or.inl rfl, by decide +kernel⟩
      ⟨Or.inl rfl, by decide, List.all_eq_true.mp (by decide), by decide, [], rfl⟩
        (List.cons_ne_nil _ _) (by decide +kernel) ?_
    exact hother (by decide) (by decide) (by decide) (by decide) .nil
  obtain ⟨hnone, hreceived⟩ := wrappers_forward_params.2 (utf8 "vm_test.go") text []
    (.endingAt 2 .deadlineExceeded) (.limited none false none) _ hwrappers ⟨rfl, trivial⟩
    fun _ _ _ => ⟨Nat.le_refl _, rfl⟩
  refine ⟨?_, hnone, hreceived.trans ?_⟩
  · rw [← hlist]
    exact wrappers_forward_params.1 groups (List.cons_ne_nil _ _)
  · decide +kernel

end Wrappers

end ColonMachine
